import Mathlib.Data.Set.List
import Lifecycle.Proofs.Canonical
import Lifecycle.Proofs.PolicyContent

/-!
# What content hashes tell

If no two of the contents that a ledger hashes have the same digest (`Memory.CollisionFree`), then
equal hashes mean equal canonical texts, and these tell the references: the texts that a document
lists (`Content.mem_listed_of_canonical`), and the integrations and the root decoder that a policy
names (`Content.references_of_canonical`).
-/

namespace Lifecycle

variable {memory : Memory}

/-! ### Canonical texts of documents -/

namespace Content

/-- The items of the list under a key of the document in a body, none if there is no list. -/
def listed (key : String) (body : Table Json) : List Json :=
  ((Table.get? (Commit.documentOf body) key).bind Json.list?).getD []

theorem asciiOctets_injective {cs ds : List Char} (hc : ∀ c ∈ cs, c.toNat < 128)
    (hd : ∀ d ∈ ds, d.toNat < 128) (h : asciiOctets cs = asciiOctets ds) : cs = ds := by
  refine Json.eq_of_map_eq ?_ h
  intro c hmem d hmem' heq
  have hcode := congrArg UInt8.toNat heq
  rw [UInt8.toNat_ofNat_of_lt' (by have := hc c hmem; simp [UInt8.size]; omega),
    UInt8.toNat_ofNat_of_lt' (by have := hd d hmem'; simp [UInt8.size]; omega)] at hcode
  exact Char.toNat_inj.mp hcode

theorem canonical_get?_substance {a b : Table Json} {excluded : List String} {key : String}
    (h : canonicalText a excluded = canonicalText b excluded)
    (hkey : key ∉ volatileKeys ++ excluded) :
    (Table.get? a key).map Json.canonical = (Table.get? b key).map Json.canonical := by
  have hget := Json.canonical_get? h key
  rwa [substance, substance, Table.get?_without hkey, Table.get?_without hkey] at hget

/-- Documents with the same canonical text list the same texts. -/
theorem mem_listed_of_canonical {body other : Table Json} {key : String}
    (h : canonicalText (Commit.documentOf body) [] = canonicalText (Commit.documentOf other) [])
    (hkey : key ∉ volatileKeys) (htexts : ∀ item ∈ listed key body, ∃ id, item = .text id) :
    ∀ item ∈ listed key body, item ∈ listed key other := by
  intro item hitem
  have hget := canonical_get?_substance h (by simpa using hkey)
  rw [listed] at hitem htexts
  cases hbody : Table.get? (Commit.documentOf body) key with
  | none => simp [hbody] at hitem
  | some value =>
    rw [hbody] at hitem htexts hget
    cases value with
    | list items =>
      -- a list with a text for each item is the list of these texts
      have hall : items ∈ Set.range (List.map Json.text) := by
        rw [Set.range_list_map]
        intro item hitem
        obtain ⟨id, hid⟩ := htexts item hitem
        exact ⟨id, hid.symm⟩
      obtain ⟨ids, rfl⟩ := hall
      cases hother : Table.get? (Commit.documentOf other) key with
      | none => simp [hother] at hget
      | some found =>
        rw [hother, Option.map_some, Option.map_some, Option.some.injEq] at hget
        rw [listed, hother, Json.eq_texts_of_canonical hget.symm]
        exact hitem
    | _ => cases hitem

/-- Policies with the same canonical text name the same integrations and the same root decoder. -/
theorem references_of_canonical {a b : Policy}
    (h : canonicalText a.fields ["id"] = canonicalText b.fields ["id"]) :
    a.integrations = b.integrations ∧ a.rootDecoder = b.rootDecoder := by
  have hintegrations := canonical_get?_substance h (show "integrations" ∉ _ by decide)
  have hroot := canonical_get?_substance h (show "root_decoder" ∉ _ by decide)
  constructor
  · have heq := Json.eq_texts_of_canonical (Option.some.inj hintegrations)
    exact List.map_injective_iff.mpr (fun _ _ => Json.text.inj) (Json.list.inj heq)
  · exact Json.text.inj (Json.eq_text_of_canonical (Option.some.inj hroot))

end Content

/-! ### Hashed contents -/

/-- The contents that the ledger hashes: the documents of all entities, and the policies of the
spaces without their ids. -/
inductive Memory.Hashed (memory : Memory) : List UInt8 → Prop where
  | entity (type : EntityType) (entry : Query.Entry) (mem : entry ∈ memory.entities type) :
    Hashed memory (Content.asciiOctets (Content.canonicalText (Commit.documentOf entry.2) []))
  | policy (space : Space) (record : PolicyRecord)
    (stored : Policies.stored? memory.policies space = .ok (some record)) :
    Hashed memory (Content.asciiOctets (Content.canonicalText record.document.fields ["id"]))

/-- No two of the hashed contents have the same digest. -/
def Memory.CollisionFree (memory : Memory) : Prop :=
  ∀ a b, memory.Hashed a → memory.Hashed b → Sha256.hexDigest a = Sha256.hexDigest b → a = b

theorem Memory.CollisionFree.canonicalText_eq (h : memory.CollisionFree) {a b : Table Json}
    {excluded : List String}
    (ha : memory.Hashed (Content.asciiOctets (Content.canonicalText a excluded)))
    (hb : memory.Hashed (Content.asciiOctets (Content.canonicalText b excluded)))
    (hhash : Content.hash a excluded = Content.hash b excluded) :
    Content.canonicalText a excluded = Content.canonicalText b excluded := by
  have hoctets := h _ _ ha hb (String.ofList_injective hhash)
  exact Content.asciiOctets_injective (Json.ascii_canonical _) (Json.ascii_canonical _) hoctets

end Lifecycle
