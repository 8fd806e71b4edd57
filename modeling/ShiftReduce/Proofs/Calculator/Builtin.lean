import ShiftReduce.Proofs.Calculator.Exact
import Mathlib.Data.List.Induction

namespace ShiftReduce.Calculator.Evaluator

def Totalled (ns : List Int) : Prop := ∀ init, init <+: ns → InRange init.sum

inductive Returns : String → List (Except Error Int) → Except Error Int → Prop
  | unknown {name arguments} : name ∉ builtins →
      Returns name arguments (.error (.unknownFunction name))
  | absArity {arguments} : arguments.length ≠ 1 →
      Returns "abs" arguments (.error (.arity "abs" "1" arguments.length))
  | absError {e} : Returns "abs" [.error e] (.error e)
  | absLeast : Returns "abs" [.ok (-9223372036854775808)] (.error .overflow)
  | abs {n} : n ≠ -9223372036854775808 → Returns "abs" [.ok n] (.ok |n|)
  | extremumError {name} {before : List Int} {e after} : name = "min" ∨ name = "max" →
      Returns name (before.map .ok ++ .error e :: after) (.error e)
  | extremumArity {name} : name = "min" ∨ name = "max" →
      Returns name [] (.error (.arity name "at least 1" 0))
  | least {ns : List Int} {n} : n ∈ ns → (∀ m ∈ ns, n ≤ m) →
      Returns "min" (ns.map .ok) (.ok n)
  | greatest {ns : List Int} {n} : n ∈ ns → (∀ m ∈ ns, m ≤ n) →
      Returns "max" (ns.map .ok) (.ok n)
  | sumArity : Returns "sum" [] (.error (.arity "sum" "at least 1" 0))
  | sumError {before e after} : Totalled before →
      Returns "sum" (before.map .ok ++ .error e :: after) (.error e)
  | sumOverflow {before n after} : Totalled before → ¬ InRange (before.sum + n) →
      Returns "sum" (before.map .ok ++ .ok n :: after) (.error .overflow)
  | total {ns} : ns ≠ [] → Totalled ns → Returns "sum" (ns.map .ok) (.ok ns.sum)

variable {name : String} {arguments : List (Except Error Int)} {r : Except Error Int} {n : Int}
  {ns : List Int}

theorem exists_stop (good : List Int → Prop) (hnil : good [])
    (arguments : List (Except Error Int)) :
    (∃ ns, arguments = ns.map .ok ∧ ∀ init, init <+: ns → good init) ∨
      ∃ before argument after, arguments = before.map .ok ++ argument :: after ∧
        (∀ init, init <+: before → good init) ∧ ∀ n, argument = .ok n → ¬ good (before ++ [n]) := by
  induction arguments using List.reverseRecOn with
  | nil =>
    refine .inl ⟨[], rfl, fun init hinit => ?_⟩
    rw [List.prefix_nil.mp hinit]
    exact hnil
  | append_singleton arguments argument ih =>
    rcases ih with ⟨ns, rfl, hns⟩ | ⟨before, stop, after, rfl, hbefore, hstop⟩
    · by_cases hgoes : ∃ n, argument = .ok n ∧ good (ns ++ [n])
      · obtain ⟨n, rfl, hn⟩ := hgoes
        refine .inl ⟨ns ++ [n], by simp, fun init hinit => ?_⟩
        rcases List.prefix_concat_iff.mp hinit with rfl | hinit
        · exact hn
        · exact hns init hinit
      · exact .inr ⟨ns, argument, [], rfl, hns, fun n hn hgood => hgoes ⟨n, hn, hgood⟩⟩
    · exact .inr ⟨before, stop, after ++ [argument], by simp, hbefore, hstop⟩

section Extremum

variable {choose : Int → Int → Int}

theorem mapM_error (before : List Int) (e : Error) (after : List (Except Error Int)) :
    (before.map .ok ++ .error e :: after : List (Except Error Int)).mapM id = .error e := by
  induction before with
  | nil => rfl
  | cons n before ih =>
    rw [List.map_cons, List.cons_append, List.mapM_cons, ih]
    rfl

theorem extremum_error (before : List Int) (e : Error) (after : List (Except Error Int)) :
    extremum name choose (before.map .ok ++ .error e :: after) = .error e := by
  rw [extremum, mapM_error]
  rfl

theorem extremum_min (hmem : n ∈ ns) (hle : ∀ m ∈ ns, n ≤ m) :
    extremum name min (ns.map .ok) = .ok n := by
  obtain ⟨m, ms, rfl⟩ := List.exists_cons_of_ne_nil (List.ne_nil_of_mem hmem)
  have hmin : (m :: ms).min? = some n := List.min?_eq_some_iff.mpr ⟨hmem, hle⟩
  rw [extremum_ok, Option.some.inj hmin]

theorem extremum_max (hmem : n ∈ ns) (hle : ∀ m ∈ ns, m ≤ n) :
    extremum name max (ns.map .ok) = .ok n := by
  obtain ⟨m, ms, rfl⟩ := List.exists_cons_of_ne_nil (List.ne_nil_of_mem hmem)
  have hmax : (m :: ms).max? = some n := List.max?_eq_some_iff.mpr ⟨hmem, hle⟩
  rw [extremum_ok, Option.some.inj hmax]

end Extremum

section Sum

theorem totalled_concat : Totalled (ns ++ [n]) ↔ Totalled ns ∧ InRange (ns.sum + n) := by
  constructor
  · intro h
    refine ⟨fun init hinit => h init (hinit.trans (List.prefix_append ns [n])), ?_⟩
    simpa using h (ns ++ [n]) List.prefix_rfl
  · rintro ⟨hns, hn⟩ init hinit
    rcases List.prefix_concat_iff.mp hinit with rfl | hinit
    · simpa using hn
    · exact hns init hinit

theorem sumFrom_totalled (h : Totalled ns) (rest : List (Except Error Int)) :
    sumFrom 0 (ns.map .ok ++ rest) = sumFrom ns.sum rest := by
  -- From the end, since the totals that must be in range are those of the prefixes.
  induction ns using List.reverseRecOn generalizing rest with
  | nil => rfl
  | append_singleton ns n ih =>
    obtain ⟨hns, hn⟩ := totalled_concat.mp h
    rw [List.map_append, List.append_assoc, ih hns, List.map_singleton, List.singleton_append,
      sumFrom_cons, checked, if_pos hn, List.sum_append, List.sum_singleton]
    rfl

theorem sum_totalled (h : Totalled ns) {rest : List (Except Error Int)}
    (hne : ns.map .ok ++ rest ≠ []) : sum (ns.map .ok ++ rest) = sumFrom ns.sum rest := by
  rw [sum, if_neg (by simpa using hne), sumFrom_totalled h]

end Sum

theorem call_unknown (h : name ∉ builtins) (arguments : List (Except Error Int)) :
    call name arguments = .error (.unknownFunction name) := by
  unfold call
  split
  case h_5 => rfl
  all_goals exact absurd (by decide) h

theorem abs_arity (h : arguments.length ≠ 1) :
    abs arguments = .error (.arity "abs" "1" arguments.length) := by
  match arguments with
  | [] | _ :: _ :: _ => rfl
  | [_] => exact absurd rfl h

theorem abs_ok (hrange : InRange n) (hn : n ≠ -9223372036854775808) : abs [.ok n] = .ok |n| := by
  have habs : abs [.ok n] = checked |n| := by
    rw [Int.abs_eq_natAbs]
    rfl
  have hin : InRange |n| := by
    rw [Int.abs_eq_natAbs]
    unfold InRange at hrange ⊢
    omega
  rw [habs, checked, if_pos hin]

theorem Returns.call_eq (h : Returns name arguments r)
    (hrange : ∀ n, .ok n ∈ arguments → InRange n) : call name arguments = r := by
  cases h with
  | unknown hname => exact call_unknown hname _
  | absArity hlength => exact abs_arity hlength
  | absError | absLeast | sumArity => rfl
  | abs hn => exact abs_ok (hrange _ (List.mem_singleton_self _)) hn
  | extremumError hname => rcases hname with rfl | rfl <;> exact extremum_error _ _ _
  | extremumArity hname => rcases hname with rfl | rfl <;> rfl
  | least hmem hle => exact extremum_min hmem hle
  | greatest hmem hle => exact extremum_max hmem hle
  | sumError hbefore => exact sum_totalled hbefore (by simp)
  | sumOverflow hbefore hn =>
    refine (sum_totalled hbefore (by simp)).trans ?_
    rw [sumFrom_cons, checked, if_neg hn]
    rfl
  | @total ns hne hns =>
    have hsum := @sum_totalled ns hns [] (by simpa using hne)
    rwa [List.append_nil] at hsum

theorem exists_returns_abs (arguments : List (Except Error Int)) :
    ∃ r, Returns "abs" arguments r := by
  match arguments with
  | [] | _ :: _ :: _ => exact ⟨_, .absArity (by simp)⟩
  | [.error e] => exact ⟨_, .absError⟩
  | [.ok n] =>
    by_cases hn : n = -9223372036854775808
    · subst hn
      exact ⟨_, .absLeast⟩
    · exact ⟨_, .abs hn⟩

theorem exists_returns_extremum (hname : name = "min" ∨ name = "max")
    (arguments : List (Except Error Int)) : ∃ r, Returns name arguments r := by
  rcases exists_stop (fun _ => True) trivial arguments with
    ⟨ns, rfl, -⟩ | ⟨before, argument, after, rfl, -, hstop⟩
  · match ns with
    | [] => exact ⟨_, .extremumArity hname⟩
    | n :: ns =>
      rcases hname with rfl | rfl
      · have hmin : (n :: ns).min? = some (ns.foldl min n) := List.min?_cons'
        obtain ⟨hmem, hle⟩ := List.min?_eq_some_iff.mp hmin
        exact ⟨_, .least hmem hle⟩
      · have hmax : (n :: ns).max? = some (ns.foldl max n) := List.max?_cons'
        obtain ⟨hmem, hle⟩ := List.max?_eq_some_iff.mp hmax
        exact ⟨_, .greatest hmem hle⟩
  · match argument with
    | .error e => exact ⟨_, .extremumError hname⟩
    | .ok n => exact absurd trivial (hstop n rfl)

theorem exists_returns_sum (arguments : List (Except Error Int)) :
    ∃ r, Returns "sum" arguments r := by
  rcases exists_stop (InRange ·.sum) inRange_zero arguments with
    ⟨ns, rfl, hns⟩ | ⟨before, argument, after, rfl, hbefore, hstop⟩
  · match ns with
    | [] => exact ⟨_, .sumArity⟩
    | n :: ns => exact ⟨_, .total (List.cons_ne_nil n ns) hns⟩
  · match argument with
    | .error e => exact ⟨_, .sumError hbefore⟩
    | .ok n => exact ⟨_, .sumOverflow hbefore (by simpa using hstop n rfl)⟩

theorem exists_returns (name : String) (arguments : List (Except Error Int)) :
    ∃ r, Returns name arguments r := by
  by_cases hname : name ∈ builtins
  · simp only [builtins, List.mem_cons, List.not_mem_nil, or_false] at hname
    rcases hname with rfl | rfl | rfl | rfl
    · exact exists_returns_abs arguments
    · exact exists_returns_extremum (.inl rfl) arguments
    · exact exists_returns_extremum (.inr rfl) arguments
    · exact exists_returns_sum arguments
  · exact ⟨_, .unknown hname⟩

/-- A call has one result, whatever the name and whatever is wrong with the arguments, as long as
those that are numbers are in range. -/
theorem call_eq_iff (name : String) (hrange : ∀ n, .ok n ∈ arguments → InRange n) :
    call name arguments = r ↔ Returns name arguments r := by
  constructor
  · rintro rfl
    obtain ⟨r, hr⟩ := exists_returns name arguments
    rwa [hr.call_eq hrange]
  · exact fun h => h.call_eq hrange

theorem call_eq_iff_overflow :
    let arguments : List (Except Error Int) :=
      [.ok 9223372036854775807, .ok 1, .error .divisionByZero]
    (∀ n, .ok n ∈ arguments → InRange n) ∧ Returns "sum" arguments (.error .overflow) := by
  have hrange : ∀ n, (.ok n : Except Error Int) ∈
      [.ok 9223372036854775807, .ok 1, .error .divisionByZero] → InRange n := by
    intro n hn
    simp only [List.mem_cons, Except.ok.injEq, reduceCtorEq, List.not_mem_nil, or_false] at hn
    rcases hn with rfl | rfl <;> decide
  exact ⟨hrange, (call_eq_iff "sum" hrange).mp rfl⟩

end ShiftReduce.Calculator.Evaluator
