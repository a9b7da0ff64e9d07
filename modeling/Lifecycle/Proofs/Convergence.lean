import Lifecycle.Proofs.Planning

/-!
# Promotions converge

Once what was shown of a well-formed store is promoted, nothing is left to promote
(`promote_converges`). For each entity this comes down to three cases: a copy that was written has
the content of its source, a copy that was removed has no source, and what nothing was planned for
had the same content before (`Ledger.contentOf?_levelled`). A policy that was saved is read back
with the content of its source, though neither with its space nor its id nor its times.
-/

namespace Lifecycle

variable {deployment : Deployment} {world : World} {memory : Memory} {space target : Space}

theorem Space.ne_of_target? (h : space.target? = some target) : space ≠ target := by
  rintro rfl
  cases space <;> exact absurd h (by decide)

/-! ### Entities -/

/-- The documents of a type after what differs between two spaces is written and removed. -/
def Ledger.levelled (docs : Documents) (space target : Space) : Documents :=
  docs.edited space target (writesIn docs space target) (removalsIn docs space target)

namespace Ledger

variable {docs : Documents}

/-- After what differs is written and removed, both spaces have the same contents. -/
theorem contentOf?_levelled (h : docs.Orderly) (hne : space ≠ target) (id : String) :
    contentOf? (levelled docs space target) space id =
      contentOf? (levelled docs space target) target id := by
  obtain ⟨hchanged, hwritten, hremoved⟩ := Documents.edited_changed h target
    (nodup_writesIn_append h space target) fun id => has_of_mem_writesIn h
  have hsource : contentOf? (levelled docs space target) space id = contentOf? docs space id := by
    rw [contentOf?, contentOf?, levelled, hchanged.copyOf?_eq h fun heq => absurd heq hne]
  rw [hsource]
  by_cases hwrite : id ∈ writesIn docs space target
  · exact (contentOf?_of_bodyFor h (has_of_mem_writesIn h hwrite) (hwritten id hwrite)).symm
  · by_cases hremoval : id ∈ removalsIn docs space target
    · rw [contentOf?, contentOf?, levelled, hremoved id hremoval,
        copyOf?_eq_none_of_mem_removalsIn h hremoval]
    · -- nothing was done about the entity, for it did not differ
      have hsame : (levelled docs space target).copyOf? target id = docs.copyOf? target id := by
        apply hchanged.copyOf?_eq h
        intro _ hmem
        rcases List.mem_append.mp hmem with hmem | hmem
        · exact hwrite hmem
        · exact hremoval hmem
      rw [contentOf?_eq_of_not_mem h hwrite hremoval, contentOf?, contentOf?, hsame]

/-- After what differs is written and removed, nothing is left to write or to remove. -/
theorem entityChangesIn_levelled (h : docs.Orderly) (hne : space ≠ target) :
    (levelled docs space target).Orderly ∧
      entityChangesIn (levelled docs space target) space target = [] := by
  obtain ⟨hchanged, -⟩ := Documents.edited_changed h target
    (nodup_writesIn_append h space target) fun id => has_of_mem_writesIn h
  exact ⟨hchanged.orderly,
    (entityChangesIn_eq_nil_iff hchanged.orderly).mpr (contentOf?_levelled h hne)⟩

end Ledger

/-- What the script that the contents ask for makes of them. -/
theorem Commit.replay_askedScript (hmemory : memory.Orderly) (space target : Space)
    (source current : Option PolicyRecord) (time : Instant) :
    (∀ type, (memory.replay (askedScript memory space target source current time)).entities type =
      Ledger.levelled (memory.entities type) space target) ∧
    (memory.replay (askedScript memory space target source current time)).policies =
      policiesAfter memory.policies target (Ledger.differing source current) current time := by
  refine ⟨fun type => ?_, policies_replay_script ..⟩
  exact entities_replay_script (fun _ => rfl) hmemory.entities
    (fun type => Ledger.nodup_writesIn_append (hmemory.entities type) _ _)
    (fun type id => Ledger.has_of_mem_writesIn (hmemory.entities type))
    (fun call => index_of_mem_policyScript) type

/-! ### The policy -/

/-- After the policy is promoted, it does not differ from that of the successor any more. -/
theorem Commit.exists_stored?_policiesAfter {docs : Documents} (h : docs.OrderlyPolicies)
    (hne : space ≠ target) {source current : Option PolicyRecord}
    (hsource : Policies.stored? docs space = .ok source)
    (hcurrent : Policies.stored? docs target = .ok current) (time : Instant) :
    ∃ later, Policies.stored?
        (policiesAfter docs target (Ledger.differing source current) current time) space =
          .ok source ∧
      Policies.stored?
        (policiesAfter docs target (Ledger.differing source current) current time) target =
          .ok later ∧
      Ledger.differing source later = none := by
  cases hdiffers : Ledger.differing source current with
  | none => exact ⟨current, hsource, hcurrent, hdiffers⟩
  | some record =>
    obtain ⟨rfl, hnot⟩ := Option.filter_eq_some_iff.mp hdiffers
    have hnot : samePolicy record current = false := by simpa using hnot
    have hstored := stored?_promotedPolicies h hsource hcurrent hnot time
    obtain ⟨_, _, hspace⟩ := hstored space
    obtain ⟨key, body, htarget⟩ := hstored target
    rw [if_neg hne] at hspace
    rw [if_pos rfl] at htarget
    refine ⟨_, hspace.trans hsource, htarget, ?_⟩
    -- what is read back has the hash of the source, for neither space nor id nor time count
    have hhash := contentHash_promoted record
      (Policy.extra_of_check (Documents.stored?_eq_some hsource).2.2) current time target
    have hsame : samePolicy record (some ⟨key, target,
        (Policies.stamped (promotedDocument record.document current) time).reread target, body,
        []⟩) = true := by
      rw [samePolicy, Option.any_some, beq_iff_eq]
      exact hhash
    exact (Ledger.differing_eq_none_iff record _).mpr hsame

/-! ### Well-formed stores -/

def Content.Names (body : Table Json) (space : Space) : Prop :=
  ∃ fields : Table Json, body.get? "space" = some (.object fields) ∧
    fields.get? "name" = some (.text space.name)

/-- A store that content is promoted in: each document names one of the spaces; entities have ids
without a tag, policies can be read, and their changes have an id; no space has two copies of an
entity or two policies; and what stands under a storage id that is made for a space belongs to it,
and to the entity. -/
structure Memory.WellFormed (memory : Memory) : Prop where
  distinct : ∀ index ∈ contentIndexes, Table.Distinct (memory.documents index)
  named : ∀ index ∈ contentIndexes, ∀ entry ∈ memory.documents index,
    ∃ space, Content.Names entry.2 space
  identified : ∀ type, ∀ entry ∈ memory.entities type, Content.idOf entry.2 ≠ "" ∧
    Change.stripTag (Content.idOf entry.2) = Content.idOf entry.2
  oneCopy : ∀ type, ∀ entry ∈ memory.entities type, ∀ other ∈ memory.entities type, ∀ space,
    Content.Names entry.2 space → Content.Names other.2 space →
      Content.idOf entry.2 = Content.idOf other.2 → entry = other
  onePolicy : ∀ entry ∈ memory.policies, ∀ other ∈ memory.policies, ∀ space,
    Content.Names entry.2 space → Content.Names other.2 space → entry = other
  readable : ∀ entry ∈ memory.policies, ∃ document,
    Policy.check (Content.documentValue entry.2) = .good document ∧
      Change.stripTag (if document.id.isEmpty then entry.1 else document.id) ≠ ""
  placed : ∀ type, ∀ entry ∈ memory.entities type, ∀ space id,
    ({} : ContentSettings).documentId space.name id = .ok entry.1 →
      Content.Names entry.2 space ∧ Content.idOf entry.2 = id
  policyPlaced : ∀ entry ∈ memory.policies, ∀ space id,
    ({} : ContentSettings).documentId space.name id = .ok entry.1 → Content.Names entry.2 space

namespace Memory.WellFormed

theorem belongs_iff {body : Table Json} (h : ∃ origin, Content.Names body origin) (space : Space) :
    Scope.belongs space body = true ↔ Content.Names body space := by
  obtain ⟨origin, fields, hspace, hname⟩ := h
  rw [Content.belongs_iff_of_name hspace hname]
  constructor
  · rintro rfl
    exact ⟨fields, hspace, hname⟩
  · rintro ⟨fields', hspace', hname'⟩
    rw [hspace] at hspace'
    cases Option.some.inj hspace'
    rw [hname] at hname'
    exact (Space.name_injective (Json.text.inj (Option.some.inj hname'))).symm

theorem names_unique {body : Table Json} {space other : Space} (h : Content.Names body space)
    (h' : Content.Names body other) : space = other := by
  obtain ⟨fields, hspace, hname⟩ := h
  exact ((Content.belongs_iff_of_name hspace hname).mp
    ((belongs_iff ⟨space, fields, hspace, hname⟩ other).mpr h')).symm

variable (h : memory.WellFormed)

include h

theorem entities_orderly (type : EntityType) : (memory.entities type).Orderly := by
  have hbelongs : ∀ entry ∈ memory.entities type, ∀ space,
      Scope.belongs space entry.2 = true ↔ Content.Names entry.2 space :=
    fun entry hentry => belongs_iff (h.named _ (indexFor_mem type) entry hentry)
  constructor
  · exact h.distinct _ (indexFor_mem type)
  · exact fun entry hentry => (h.identified type entry hentry).1
  · intro entry hentry a b ha hb
    exact names_unique ((hbelongs entry hentry a).mp ha) ((hbelongs entry hentry b).mp hb)
  · intro entry hentry other hother space id hcopy hcopy'
    obtain ⟨hin, hid⟩ := (Content.isCopy_iff _ _ _).mp hcopy
    obtain ⟨hin', hid'⟩ := (Content.isCopy_iff _ _ _).mp hcopy'
    exact h.oneCopy type entry hentry other hother space ((hbelongs entry hentry space).mp hin)
      ((hbelongs other hother space).mp hin') (hid.trans hid'.symm)
  · intro entry hentry space id hplace
    obtain ⟨hnames, hid⟩ := h.placed type entry hentry space id hplace
    exact (Content.isCopy_iff _ _ _).mpr ⟨(hbelongs entry hentry space).mpr hnames, hid⟩

theorem policies_orderly : memory.policies.OrderlyPolicies := by
  have hbelongs : ∀ entry ∈ memory.policies, ∀ space,
      Scope.belongs space entry.2 = true ↔ Content.Names entry.2 space :=
    fun entry hentry => belongs_iff (h.named ".cti-policies" (by decide) entry hentry)
  constructor
  · exact h.distinct ".cti-policies" (by decide)
  · intro entry hentry a b ha hb
    exact names_unique ((hbelongs entry hentry a).mp ha) ((hbelongs entry hentry b).mp hb)
  · intro entry hentry other hother space hin hin'
    exact h.onePolicy entry hentry other hother space ((hbelongs entry hentry space).mp hin)
      ((hbelongs other hother space).mp hin')
  · intro entry hentry space id hplace
    exact (hbelongs entry hentry space).mpr (h.policyPlaced entry hentry space id hplace)

theorem exists_stored? (space : Space) :
    ∃ policy, Policies.stored? memory.policies space = .ok policy := by
  rw [Documents.stored?_eq]
  cases hfound : memory.policies.policyOf? space with
  | none => exact ⟨none, rfl⟩
  | some entry =>
    obtain ⟨document, hdocument, -⟩ := h.readable entry (Documents.policyOf?_mem hfound).1
    have hrecord : Policies.toRecord space ⟨entry.1, entry.2⟩ =
        .ok { docId := entry.1, space, document, source := entry.2 } :=
      Policies.toRecord_eq_ok_iff.mpr ⟨document, hdocument, rfl⟩
    rw [Option.elim_some, hrecord]
    exact ⟨_, rfl⟩

theorem orderly : memory.Orderly where
  entities := h.entities_orderly
  untagged type entry hentry := (h.identified type entry hentry).2
  policies := h.policies_orderly
  policyNamed space record hstored := by
    obtain ⟨hfound, -, hchecked⟩ := Documents.stored?_eq_some hstored
    obtain ⟨document, hdocument, hnamed⟩ := h.readable _ (Documents.policyOf?_mem hfound).1
    rw [hdocument] at hchecked
    cases hchecked
    exact hnamed

end Memory.WellFormed

/-! ### Promotions -/

/-- What was shown of a well-formed store can be promoted, and nothing is left to promote then. -/
theorem promote_converges (h : deployment.Standard)
    (hledger : deployment.settings.changeLedger = .contentHash)
    (hfixed : deployment.fixedChanges = none) (hworld : world.Standing)
    (hrules : world.rules = []) (hmemory : world.memory.WellFormed)
    (hspace : space = .draft ∨ space = .test)
    (hgate : ((Gate.ensure space).runOn deployment world).1 = .ok ()) :
    ∃ shown previewed report promoted later,
      (Preview.changesOf space).runOn deployment world = (.ok shown, previewed) ∧
      (Commit.promote space shown).runOn deployment previewed = (.ok report, promoted) ∧
      (Preview.changesOf space).runOn deployment promoted = (.ok {}, later) := by
  have horderly := hmemory.orderly
  have htarget : ∃ target, space.target? = some target := by
    rcases hspace with rfl | rfl
    · exact ⟨.test, by decide⟩
    · exact ⟨.custom, by decide⟩
  obtain ⟨target, htarget⟩ := htarget
  have hne := Space.ne_of_target? htarget
  obtain ⟨source, hsource⟩ := hmemory.exists_stored? space
  obtain ⟨current, hcurrent⟩ := hmemory.exists_stored? target
  have houtcome : Gate.outcome world.memory space = .ok () := by
    obtain ⟨gated, hrun, -⟩ := (Gate.performs_ensure h hworld space).run_eq hrules
    rw [hrun] at hgate
    exact hgate
  -- the preview
  have hpreview := Preview.performs_changesOf h hworld hledger hfixed horderly.entities htarget
  rw [Ledger.comparedIn_eq hsource hcurrent] at hpreview
  obtain ⟨previewed, hshown, hpreviewed⟩ := hpreview.run_eq hrules
  have hmemory' : previewed.memory = world.memory := hpreviewed.memory_eq
  have hrules' := hpreviewed.rules hrules
  have hworld' := hworld.after hpreviewed
  -- the commit
  have hpromote := Commit.performs_promote h hworld' hledger hfixed (by rwa [hmemory']) htarget
    (by rwa [hmemory']) (by rwa [hmemory']) (by rwa [hmemory'])
  rw [hmemory'] at hpromote
  obtain ⟨time, hpromote⟩ := hpromote
  obtain ⟨promoted, hreport, hpromoted⟩ := hpromote.run_eq hrules'
  -- what is left
  obtain ⟨hentities, hpolicies⟩ :=
    Commit.replay_askedScript horderly space target source current time
  have hdone : world.memory.replay (Commit.askedScript world.memory space target source current
      time) = promoted.memory := by rw [hpromoted.memory, hmemory']
  rw [hdone] at hentities hpolicies
  obtain ⟨saved, hsource', hcurrent', hsame⟩ :=
    Commit.exists_stored?_policiesAfter horderly.policies hne hsource hcurrent time
  rw [← hpolicies] at hsource' hcurrent'
  have hleft : ∀ type, (promoted.memory.entities type).Orderly ∧
      Ledger.entityChangesIn (promoted.memory.entities type) space target = [] := by
    intro type
    rw [hentities]
    exact Ledger.entityChangesIn_levelled (horderly.entities type) hne
  have hafter := Preview.performs_changesOf h (hworld'.after hpromoted) hledger hfixed
    (fun type => (hleft type).1) htarget
  obtain ⟨later, hnothing, -⟩ := hafter.run_eq (hpromoted.rules hrules')
  have hempty : (Ledger.comparedIn promoted.memory space target).map ChangeSet.normalised =
      .ok {} := by
    rw [Ledger.comparedIn_eq hsource' hcurrent', Ledger.policyChangesOf, hsame]
    simp only [fun type => (hleft type).2]
    rfl
  rw [hempty] at hnothing
  exact ⟨_, previewed, _, promoted, later, hshown, hreport, hnothing⟩

def draftBody (document : Table Json) : Table Json :=
  [("space", .object [("name", .text "draft")]), ("document", .object document)]

/-- A store whose space `draft` has a decoder, an integration that lists it, and a policy that names
both. -/
def linkedDraft : World :=
  { memory :=
      { mappings := contentIndexes.map fun index => (index, Memory.defaultMapping)
        indexes :=
          [(".cti-decoders", [("a", draftBody [("id", .text "x")])]),
           (".cti-integrations",
            [("b", draftBody [("id", .text "y"), ("decoders", Json.texts ["x"])])]),
           (".cti-policies",
            [("c", draftBody [("id", .text "z"), ("root_decoder", .text "x"),
              ("integrations", Json.texts ["y"])])])] } }

theorem linkedDraft_standing : linkedDraft.Standing := by
  constructor
  · decide
  · intro index _ fields hget
    cases hget

theorem linkedDraft_wellFormed : linkedDraft.memory.WellFormed := by
  have hkeys : ∀ index ∈ contentIndexes, ∀ entry ∈ linkedDraft.memory.documents index,
      ':' ∉ entry.1.toList := by
    decide
  constructor
  · decide
  · have hnamed : ∀ index ∈ contentIndexes, ∀ entry ∈ linkedDraft.memory.documents index,
        entry.2.get? "space" = some (.object [("name", .text "draft")]) := by
      decide
    exact fun index hindex entry hentry => ⟨.draft, _, hnamed index hindex entry hentry, rfl⟩
  · intro type
    cases type <;> decide
  · have hone : ∀ type, ∀ entry ∈ linkedDraft.memory.entities type,
        ∀ other ∈ linkedDraft.memory.entities type, entry = other := by
      intro type
      cases type <;> decide
    exact fun type entry hentry other hother _ _ _ _ => hone type entry hentry other hother
  · have hone : ∀ entry ∈ linkedDraft.memory.policies, ∀ other ∈ linkedDraft.memory.policies,
        entry = other := by
      decide
    exact fun entry hentry other hother _ _ _ => hone entry hentry other hother
  · intro entry hentry
    rw [List.mem_singleton.mp hentry]
    exact ⟨{ id := "z", rootDecoder := "x", integrations := ["y"] }, rfl, by decide⟩
  · exact fun type entry hentry space id hplace =>
      absurd hplace (documentId_ne space id (hkeys _ (indexFor_mem type) entry hentry))
  · exact fun entry hentry space id hplace =>
      absurd hplace (documentId_ne space id (hkeys ".cti-policies" (by decide) entry hentry))

/-- The gate lets the store pass, and its promotion converges. -/
theorem promote_converges_linkedDraft :
    ((Gate.ensure .draft).runOn {} linkedDraft).1 = .ok () ∧
      ∃ shown previewed report promoted later,
        (Preview.changesOf .draft).runOn {} linkedDraft = (.ok shown, previewed) ∧
        (Commit.promote .draft shown).runOn {} previewed = (.ok report, promoted) ∧
        (Preview.changesOf .draft).runOn {} promoted = (.ok {}, later) := by
  have hstandard : Deployment.Standard {} := ⟨rfl, rfl, rfl, by decide⟩
  have hgate : ((Gate.ensure .draft).runOn {} linkedDraft).1 = .ok () := by
    obtain ⟨gated, hrun, -⟩ :=
      (Gate.performs_ensure hstandard linkedDraft_standing .draft).run_eq rfl
    rw [hrun]
    show Gate.outcome linkedDraft.memory .draft = .ok ()
    decide +kernel
  exact ⟨hgate, promote_converges hstandard rfl rfl linkedDraft_standing rfl
    linkedDraft_wellFormed (.inl rfl) hgate⟩

end Lifecycle
