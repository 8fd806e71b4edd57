import ShiftReduce.Proofs.Engine.Element
import ShiftReduce.Proofs.Frame.Cursor

namespace ShiftReduce

variable {S V : Type}

namespace Args

end Args

section Extents

variable {stack : Stack (Frame S V)} {xs ys : List (Element S V)} {below : List (Frame S V)}

end Extents

namespace Engine

variable {σ : Type} {s t : Session S V σ}

section Straddling

end Straddling

end Engine

end ShiftReduce
