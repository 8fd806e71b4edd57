import ShiftReduce.Proofs.Calculator.Append
import ShiftReduce.Proofs.Engine.Loop

namespace ShiftReduce.Calculator

open Engine (Loops Undertakes)

variable {σ : Type} {actions : Actions σ} {config : Config Terminal} {token token' : Terminal}
  {value value' : Value} {cells : List Cell} {s t u : Session σ}

theorem Path.weight_le {qs : List State} (h : Path qs) :
    (qs.map State.weight).sum + 4 ≤ 4 * qs.length := by
  induction h with
  | start => decide
  | @advance q next qs x hpath hadvance ih =>
    have hweight : next.weight ≤ 4 := by cases next <;> decide
    rw [List.map_cons, List.sum_cons, List.length_cons]
    omega

theorem Path.potential_lt_length {qs : List State} (h : Path qs) :
    potential qs < 4 * qs.length := by
  have hweight := h.weight_le
  unfold potential
  split
  · simp
  · omega

theorem Drives.ne_exhausted {r : EStateM.Result (Halt Fault) (Session σ) Unit}
    (h : Drives actions config token value s cells r) : ∀ t, r ≠ .error .exhausted t := by
  intro t ht
  induction h with
  | reduced _ _ _ _ _ _ ih => exact ih ht
  | refused | accepted | shifted | crowded | overgrown | broke => cases ht

theorem Drives.typed {r : EStateM.Result (Halt Fault) (Session σ) Unit}
    (h : Drives actions config token value s cells r) (hshaped : Shaped token value)
    (hcells : Proper cells) (hr : r = .ok () t) (hopen : t.failed = false) :
    Typed t.stack.frames := by
  induction h with
  | refused | crowded | overgrown =>
    cases hr
    cases hopen
  | accepted _ _ hshows =>
    cases hr
    exact ⟨_, hcells, hshows⟩
  | shifted haction _ hshows =>
    cases hr
    exact ⟨_, hcells.shift haction hshaped, hshows⟩
  | reduced haction hreduces hworks _ _ _ ih =>
    exact ih ((hcells.reduces_clean haction hreduces).2 _ hworks.yields) hr
  | broke => cases hr

theorem drive_loops (hebnf : config.ebnf = true) (hopen : s.failed = false)
    (hs : Typed s.stack.frames) :
    1 ≤ s.stack.depth ∧ ∃ n ≤ 4 * s.stack.depth,
      Loops (engine actions config) token value n s
        ((engine actions config).drive token value s) := by
  obtain ⟨cells, hproper, hshows⟩ := hs
  have hpotential := hproper.path.potential_lt_length
  have hdepth := hshows.length_le
  rw [List.length_map] at hpotential
  rw [Stack.length_frames] at hdepth
  have hcourse : Drives actions config token value s cells
      ((engine actions config).driveWithin token value (4 * s.stack.depth) s) :=
    driveWithin_course hebnf hopen hproper hshows
      (Nat.lt_of_lt_of_le hpotential (Nat.mul_le_mul_left 4 hdepth))
  -- The bound on the reductions comes from a drive with fewer steps than the reach allows.
  generalize hdrive : (engine actions config).driveWithin token value (4 * s.stack.depth) s = r
    at hcourse
  obtain ⟨n, hn, hloops⟩ := Engine.exists_loop hdrive hcourse.ne_exhausted
  have hreach : (engine actions config).drive token value s = r :=
    hloops.driveWithin_eq (Nat.lt_succ_of_le hn)
  exact ⟨by omega, n, hn, hreach ▸ hloops⟩

theorem undertakes_typed (hconfig : Sane config) (hs : Visited actions config s)
    (hopen : s.closed = false)
    (h : Undertakes (engine actions config) token value s token' value' u) :
    u.failed = false ∧ Typed u.stack.frames := by
  obtain ⟨us, cells, hbears, -⟩ := (hs.upheld hconfig).bears hopen
  have hbase : Typed s.stack.base.items := ⟨cells, hbears.proper, hbears.shows⟩
  induction h with
  | posted => exact ⟨(Bool.or_eq_false_iff.mp hopen).2, hbase⟩
  | @resumed recovery t u _ hdrive _ hunwind =>
    have hsame := Engine.KeepsBase.drive (engine actions config) token value s.opened
    rw [hdrive] at hsame
    have hreopened : Typed t.reopened.stack.frames := by
      have hkept : t.stack.base = s.stack.base := hsame.base_eq
      rw [show t.reopened.stack.frames = t.stack.base.items from rfl, hkept]
      exact hbase
    obtain ⟨found, u', hrun, hu, hfound⟩ := unwind_ends actions config recovery hreopened
    cases hrun.symm.trans hunwind
    exact ⟨hu.failed_eq, hfound rfl⟩
  | @reposted recovery u w _ hrecovery hdrive hfailed ih =>
    obtain rfl := hconfig.recovery _ hrecovery
    obtain ⟨cells, hproper, hshows⟩ := ih.2
    have hcourse : Drives actions config .error default u cells _ :=
      drive_course hconfig.ebnf ih.1 hproper hshows
    have hw : Typed w.stack.frames := hcourse.typed .error hproper hdrive hfailed
    exact ⟨hfailed, hw⟩

/-- Whatever token is posted, every drive that the post sets off makes at most four reductions for
each frame that it begins with. -/
theorem drive_reductions_le (hconfig : Sane config) (hs : Visited actions config s)
    (hopen : s.closed = false)
    (h : Undertakes (engine actions config) token value s token' value' u) :
    1 ≤ u.stack.depth ∧ ∃ n ≤ 4 * u.stack.depth,
      Loops (engine actions config) token' value' n u
        ((engine actions config).drive token' value' u) := by
  obtain ⟨hfailed, htyped⟩ := undertakes_typed hconfig hs hopen h
  exact drive_loops hconfig.ebnf hfailed htyped

theorem drive_reductions_le_halfway :
    Sane defaultConfig ∧ Visited Evaluator.actions defaultConfig halfway ∧
      halfway.closed = false ∧ halfway.opened.stack.depth = 5 ∧
      (∃ n ≤ 20, Loops stock .eof .nothing n halfway.opened
        (stock.drive .eof .nothing halfway.opened)) ∧
      (Engine.final (stock.drive .eof .nothing halfway.opened)).stats.reductions =
        halfway.stats.reductions + 3 := by
  have hsane : Sane defaultConfig := ⟨rfl, fun _ h => (Option.some.inj h).symm⟩
  have hopen : halfway.closed = false := by decide +kernel
  have hdepth : halfway.opened.stack.depth = 5 := by decide +kernel
  have hposted : Undertakes stock .eof .nothing halfway .eof .nothing halfway.opened := .posted
  obtain ⟨-, hloops⟩ := drive_reductions_le hsane halfway_visited hopen hposted
  rw [hdepth] at hloops
  exact ⟨hsane, halfway_visited, hopen, hdepth, hloops, by decide +kernel⟩

end ShiftReduce.Calculator
