import GarbageCollector.Proofs.Forecast
import GarbageCollector.Soundness.Relocation
import Mathlib.Data.List.Nodup
import Mathlib.Logic.Relation

/-! # Pointers between objects

`garbage_collection` returns as soon as it has copied the object behind a root: the text that would
follow the object's `*` fields comes after that `return`. Whether such a field was followed can be told from the
heap before the collection, as far as its visits can be foreseen there: a copy gets the words that follow the
root's value, and a word that pointed into an object still points to where the object was.
-/

namespace GarbageCollector.Soundness

open Model Proofs

section Foreseen

variable {s : Session} {f : Forecast} {c : Collection} {stack : Stack} {roots : List ℕ}

end Foreseen

end GarbageCollector.Soundness
