import Lifecycle.Catalog
import Lifecycle.Promotion.Commit
import Lifecycle.Proofs.PolicyContent

/-!
# What every operation keeps

A contract says what is known at every point of whatever is done on a deployment: of the world, of
the pages that the store gives, of the bodies that may be written to an index, and of the faults
that may come out. It is lawful (`Contract.Lawful`) when the operations of the store and of the
ledger meet it, the bodies that the lifecycle makes may be written, and the faults of the lifecycle
may come out. Then all operations meet it, since they are sequences of those: one lemma for each of
them here, none of which looks into a backend.

The faults inside a step of a commit do not matter to a contract, for the step names what comes out.
-/

namespace Lifecycle

variable {α β : Type} {deployment : Deployment} {holds : World → Prop}

/-! ### Invariants of runs -/

/-- An outcome that is such a value or such a fault. -/
def Ends (value : α → Prop) (fault : Fault → Prop) : Except Fault α → Prop
  | .ok found => value found
  | .error cause => fault cause

theorem ends_any (outcome : Except Fault α) : Ends (fun _ => True) (fun _ => True) outcome := by
  cases outcome <;> trivial

theorem Ends.mono {value other : α → Prop} {fault cause : Fault → Prop} {outcome : Except Fault α}
    (h : Ends value fault outcome) (hvalue : ∀ found, value found → other found)
    (hfault : ∀ found, fault found → cause found) : Ends other cause outcome := by
  cases outcome with
  | ok found => exact hvalue found h
  | error found => exact hfault found h

/-- What is known of the fault that an outcome is. -/
theorem Ends.of_error {value : α → Prop} {fault : Fault → Prop} {outcome : Except Fault α}
    {cause : Fault} (h : Ends value fault outcome) (houtcome : outcome = .error cause) :
    fault cause := by
  rw [houtcome] at h
  exact h

theorem Ends.bind {value : α → Prop} {after : β → Prop} {fault : Fault → Prop}
    {outcome : Except Fault α} {next : α → Except Fault β} (h : Ends value fault outcome)
    (hnext : ∀ found, value found → Ends after fault (next found)) :
    Ends after fault (outcome >>= next) := by
  cases outcome with
  | ok found => exact hnext found h
  | error found => exact h

/-- A list of values ends in the fault of one of them if it ends in one. -/
theorem ends_mapM {fault : Fault → Prop} {read : α → Except Fault β} {values : List α}
    (h : ∀ value ∈ values, Ends (fun _ => True) fault (read value)) :
    Ends (fun _ => True) fault (values.mapM read) := by
  induction values with
  | nil => trivial
  | cons value rest ih =>
    rw [List.mapM_cons]
    refine (h value List.mem_cons_self).bind fun found _ => ?_
    exact (ih fun other hother => h other (List.mem_cons_of_mem _ hother)).bind fun _ _ => trivial

/-- What each step keeps, a fold keeps. -/
theorem ends_foldlM {value : β → Prop} {fault : Fault → Prop} {step : β → α → Except Fault β}
    {items : List α}
    (hstep : ∀ item ∈ items, ∀ result, value result → Ends value fault (step result item))
    {start : β} (hstart : value start) : Ends value fault (items.foldlM step start) := by
  induction items generalizing start with
  | nil => exact hstart
  | cons item rest ih =>
    rw [List.foldlM_cons]
    refine (hstep item List.mem_cons_self start hstart).bind fun next hnext => ?_
    exact ih (fun other hother => hstep other (List.mem_cons_of_mem _ hother)) hnext

namespace Work

/-- Every run of the work from a world of an invariant ends in one, with such a value or such a
fault. -/
def Keeps (work : Work α) (deployment : Deployment) (holds : World → Prop) (value : α → Prop)
    (fault : Fault → Prop) : Prop :=
  ∀ world, holds world →
    holds (work.runOn deployment world).2 ∧ Ends value fault (work.runOn deployment world).1

variable {value : α → Prop} {fault : Fault → Prop}

theorem Keeps.mono {work : Work α} (h : work.Keeps deployment holds value fault)
    {other : α → Prop} {cause : Fault → Prop} (hvalue : ∀ found, value found → other found)
    (hfault : ∀ found, fault found → cause found) : work.Keeps deployment holds other cause :=
  fun world hworld => ⟨(h world hworld).1, (h world hworld).2.mono hvalue hfault⟩

theorem keeps_pure {found : α} (h : value found) :
    (pure found : Work α).Keeps deployment holds value fault := fun _ hworld => ⟨hworld, h⟩

theorem keeps_throw {cause : Fault} (h : fault cause) :
    (throw cause : Work α).Keeps deployment holds value fault := fun _ hworld => ⟨hworld, h⟩

theorem keeps_ofExcept {result : Except Fault α} (h : Ends value fault result) :
    (ofExcept result).Keeps deployment holds value fault := by
  intro world hworld
  rw [runOn_ofExcept]
  exact ⟨hworld, h⟩

theorem keeps_read : (read : Work Deployment).Keeps deployment holds (· = deployment) fault :=
  fun _ hworld => ⟨hworld, rfl⟩

theorem keeps_settings :
    settings.Keeps deployment holds (· = deployment.settings) fault :=
  fun _ hworld => ⟨hworld, rfl⟩

theorem keeps_get : (get : Work World).Keeps deployment holds holds fault :=
  fun _ hworld => ⟨hworld, hworld⟩

theorem keeps_modify {change : World → World} (h : ∀ world, holds world → holds (change world)) :
    (modify change : Work Unit).Keeps deployment holds (fun _ => True) fault :=
  fun world hworld => ⟨h world hworld, trivial⟩

/-- Work behind a run of other work, whose value is known from the world that it started in. -/
theorem Keeps.bind_from {work : Work α} {next : α → Work β} {after : β → Prop} {world : World}
    (h : work.Keeps deployment holds value fault) (hworld : holds world)
    (hnext : ∀ found, (work.runOn deployment world).1 = .ok found → value found →
      (next found).Keeps deployment holds after fault) :
    holds ((work >>= next).runOn deployment world).2 ∧
      Ends after fault ((work >>= next).runOn deployment world).1 := by
  obtain ⟨hlater, hends⟩ := h world hworld
  rw [runOn_bind]
  rcases hrun : work.runOn deployment world with ⟨_ | found, later⟩
  · rw [hrun] at hlater hends
    exact ⟨hlater, hends⟩
  · rw [hrun] at hlater hends
    exact hnext found (by rw [hrun]) hends later hlater

theorem Keeps.holds_bind_from {work : Work α} {next : α → Work β} {world : World}
    (h : work.Keeps deployment holds value fault) (hworld : holds world)
    (hnext : ∀ found, (work.runOn deployment world).1 = .ok found → value found →
      (next found).Keeps deployment holds (fun _ => True) fault) :
    holds ((work >>= next).runOn deployment world).2 :=
  (h.bind_from hworld hnext).1

theorem Keeps.bind {work : Work α} {next : α → Work β} {after : β → Prop}
    (h : work.Keeps deployment holds value fault)
    (hnext : ∀ found, value found → (next found).Keeps deployment holds after fault) :
    (work >>= next).Keeps deployment holds after fault :=
  fun _ hworld => h.bind_from hworld fun found _ => hnext found

/-- Work whose first part is about the settings of the deployment. -/
theorem keeps_settings_bind {next : ContentSettings → Work α}
    (h : (next deployment.settings).Keeps deployment holds value fault) :
    (settings >>= next).Keeps deployment holds value fault :=
  keeps_settings.bind fun found hfound => by
    rw [hfound]
    exact h

theorem Keeps.attempt {work : Work α} (h : work.Keeps deployment holds value fun _ => True) :
    (attempt work).Keeps deployment holds (fun _ => True) fault := by
  intro world hworld
  rw [runOn_attempt]
  exact ⟨(h world hworld).1, trivial⟩

/-- Whatever comes out of work, its handler may make something else of it. -/
theorem Keeps.tryCatch {work : Work α} {handle : Fault → Work α} {cause : Fault → Prop}
    (h : work.Keeps deployment holds value cause)
    (hhandle : ∀ found, cause found → (handle found).Keeps deployment holds value fault) :
    (tryCatch work handle).Keeps deployment holds value fault := by
  intro world hworld
  obtain ⟨hlater, hends⟩ := h world hworld
  rw [runOn_tryCatch]
  rcases hrun : work.runOn deployment world with ⟨found | found, later⟩
  · rw [hrun] at hlater hends
    exact hhandle found hends later hlater
  · rw [hrun] at hlater hends
    exact ⟨hlater, hends⟩

/-- Asking a store in memory about fields keeps what the call keeps. -/
theorem keeps_fieldCapabilities (hbackend : deployment.backend = .memory) {index : String}
    {fields : List String}
    (hcall : (call (.fieldCapabilities index fields)).Keeps deployment holds (fun _ => True)
      fun _ => True) :
    (Store.fieldCapabilities index fields).Keeps deployment holds (fun _ => True)
      fun _ => True := by
  rw [Store.fieldCapabilities]
  refine keeps_read.bind fun found hfound => ?_
  rw [hfound, hbackend]
  refine hcall.bind fun _ _ => ?_
  split
  · exact keeps_pure trivial
  · exact keeps_get.bind fun _ _ => keeps_ofExcept (ends_any _)

end Work

/-! ### Contracts -/

/-- The faults that reading a document found can end in. -/
inductive Hit.Unread (hit : Hit) : Fault → Prop
  | document {fault : Fault} (read : Content.documentFields hit.source = .error fault) :
    Unread hit fault
  | policy {space : Space} {fault : Fault} (read : Policies.toRecord space hit = .error fault) :
    Unread hit fault
  | integration {entries : List (Json × Table Json)} {fault : Fault}
    (read : Policies.addIntegration entries hit = .error fault) : Unread hit fault
  | item {fault : Fault} (read : Catalog.toItem hit = .error fault) : Unread hit fault
  | references {type : EntityType} {wanted : List String} {titles : Table (List Json)}
    {fault : Fault} (read : Catalog.addTitles type wanted titles hit = .error fault) :
    Unread hit fault

/-- Whether a fault is that the rules of the lifecycle do not allow something. -/
def Fault.isRefusal (fault : Fault) : Bool :=
  match fault.category with
  | .notAllowed | .notFound | .preconditionFailed | .staleReference => true
  | .validation | .backendFailure => false

/-- What is known at every point of what is done: of the world, of the pages that the store gives,
of the bodies that may be written to an index, of the faults that may come out. -/
structure Contract where
  holds : World → Prop
  shown : Page → Prop := fun _ => True
  writes : String → Table Json → Prop
  fails : Fault → Prop := fun _ => True

/-- Work that meets a contract, and has such a value if it has one. -/
abbrev Work.Meets (work : Work α) (c : Contract) (deployment : Deployment)
    (value : α → Prop := fun _ => True) : Prop :=
  work.Keeps deployment c.holds value c.fails

/-- Work that meets a contract but for its faults. -/
abbrev Work.Proceeds (work : Work α) (c : Contract) (deployment : Deployment)
    (value : α → Prop := fun _ => True) : Prop :=
  work.Keeps deployment c.holds value fun _ => True

/-- What operations rely on that only read: the store and the ledger meet the contract, and what
can go wrong besides may come out. -/
structure Contract.Reads (c : Contract) (deployment : Deployment) : Prop where
  search : ∀ index asked, (Store.search index asked).Meets c deployment c.shown
  probe : ∀ index fields, (Store.fieldCapabilities index fields).Proceeds c deployment
  told : ∀ space, (Ledger.told space).Meets c deployment
  fixed : ∀ value, deployment.fixedChanges = some value →
    Ends (fun _ => True) c.fails ((ChangeSet.check .notModel value).orMisfit "PromotionChangeSet")
  kept : ∀ world index outcome, c.holds world → c.holds
    { world with
      spaceFields := world.spaceFields.put index
        (Resolver.ofOutcome deployment.settings.spaceFieldCandidates outcome) }
  clock : ∀ world clock, c.holds world → c.holds { world with clock }
  unread : ∀ page, c.shown page → ∀ hit ∈ page.hits, ∀ fault, hit.Unread fault → c.fails fault
  refused : ∀ fault : Fault, fault.isRefusal = true → c.fails fault
  step : ∀ name cause, c.fails (.step name cause)

/-- What operations rely on that write: the bodies that the contract is about may be written, and
documents may be removed. -/
structure Contract.Lawful (c : Contract) (deployment : Deployment) : Prop
    extends c.Reads deployment where
  upsert : ∀ index id body, c.writes index body → (Store.upsert index id body).Meets c deployment
  delete : ∀ index id, (Store.delete index id).Meets c deployment

variable {c : Contract}

theorem Work.Keeps.proceeds {work : Work α} {value : α → Prop}
    (h : work.Meets c deployment value) : work.Proceeds c deployment value :=
  h.mono (fun _ => id) fun _ _ => trivial

/-! ### Reading -/

namespace Contract.Reads

open Work

variable (h : c.Reads deployment)

include h

theorem scanPages (index : String) (scanned : Store.Scan) {step : β → Hit → Except Fault β}
    {value : β → Prop}
    (hstep : ∀ page, c.shown page → ∀ hit ∈ page.hits, ∀ result, value result →
      Ends value c.fails (step result hit))
    (fuel offset : Nat) {result : β} (hresult : value result) :
    (Store.scanPages index scanned step fuel offset result).Meets c deployment value := by
  -- on the bound of pages; what was read so far is kept by every step
  induction fuel generalizing offset result with
  | zero => exact keeps_pure hresult
  | succ fuel ih =>
    rw [Store.scanPages]
    refine (h.search index _).bind fun page hpage => ?_
    refine (keeps_ofExcept (ends_foldlM (hstep page hpage) hresult)).bind fun next hnext => ?_
    dsimp only
    split
    · exact keeps_pure hnext
    · exact ih _ hnext

theorem scan (index : String) (scanned : Store.Scan) {step : β → Hit → Except Fault β}
    {value : β → Prop} {start : β} (hstart : value start)
    (hstep : ∀ page, c.shown page → ∀ hit ∈ page.hits, ∀ result, value result →
      Ends value c.fails (step result hit)) :
    (Store.scan index scanned start step).Meets c deployment value := by
  rw [Store.scan]
  exact keeps_get.bind fun world _ => h.scanPages index scanned hstep _ 0 hstart

theorem scan_any (index : String) (scanned : Store.Scan) (start : β)
    {step : β → Hit → Except Fault β}
    (hstep : ∀ page, c.shown page → ∀ hit ∈ page.hits, ∀ result,
      Ends (fun _ => True) c.fails (step result hit)) :
    (Store.scan index scanned start step).Meets c deployment :=
  h.scan index scanned trivial fun page hpage hit hhit result _ => hstep page hpage hit hhit result

/-- A scan that reads the documents found first, whose steps cannot fail otherwise. -/
theorem scan_documents (index : String) (scanned : Store.Scan) (start : β)
    {step : β → Hit → Except Fault β}
    (hstep : ∀ result hit fields, Content.documentFields hit.source = .ok fields →
      ∃ next, step result hit = .ok next)
    (hfault : ∀ result hit fault, Content.documentFields hit.source = .error fault →
      step result hit = .error fault) :
    (Store.scan index scanned start step).Meets c deployment := by
  refine h.scan_any index scanned start fun page hpage hit hhit result => ?_
  cases hread : Content.documentFields hit.source with
  | ok fields =>
    obtain ⟨next, hnext⟩ := hstep result hit fields hread
    rw [hnext]
    trivial
  | error fault =>
    rw [hfault result hit fault hread]
    exact h.unread page hpage hit hhit fault (.document hread)

theorem resolve (index : String) : (Resolver.resolve index).Meets c deployment := by
  rw [Resolver.resolve]
  have hcached : (Resolver.cached? index).Meets c deployment :=
    keeps_get.bind fun world _ => keeps_pure trivial
  refine hcached.bind fun kept _ => ?_
  cases kept with
  | some fields => exact keeps_pure trivial
  | none =>
    refine keeps_settings_bind ?_
    -- a probe that fails is not raised: all candidates are kept for it
    refine (h.probe index _).attempt.bind fun outcome _ => ?_
    refine (keeps_modify fun world hworld => ?_).bind fun _ _ => keeps_pure trivial
    exact h.kept world index outcome hworld

/-- A query that can be scoped is. -/
theorem within (index : String) (space : Space) {query : Json}
    (hquery : ∀ fields, ∃ found, Scope.apply query (some space.name) fields = .ok found) :
    (Resolver.within index space query).Meets c deployment := by
  have hname : space.name ≠ "" := by cases space <;> decide
  rw [Resolver.within, Resolver.scopedQuery]
  · refine (h.resolve index).bind fun fields _ => ?_
    obtain ⟨found, hfound⟩ := hquery fields.search
    rw [hfound]
    exact keeps_ofExcept trivial
  · exact hname

theorem within_null (index : String) (space : Space) :
    (Resolver.within index space .null).Meets c deployment :=
  h.within index space fun fields => ⟨_, Scope.apply_null space fields⟩

theorem within_terms (index : String) (space : Space) (field : String) (ids : List String) :
    (Resolver.within index space (Scope.terms field ids)).Meets c deployment := by
  refine h.within index space fun fields => ?_
  cases space <;> exact ⟨_, rfl⟩

end Contract.Reads

/-! ### Policies -/

/-- A policy that has none of the known fields among its other ones, as every policy that was read
has not. -/
def Policy.Proper (policy : Policy) : Prop := policy.extra.without Policy.knownKeys = policy.extra

namespace Policies

open Work

section

variable (h : c.Reads deployment)

include h

theorem ends_toRecord {page : Page} (hpage : c.shown page) {hit : Hit} (hhit : hit ∈ page.hits)
    (space : Space) :
    Ends (fun record => record.document.Proper) c.fails (toRecord space hit) := by
  cases hread : toRecord space hit with
  | error fault => exact h.unread page hpage hit hhit fault (.policy hread)
  | ok record =>
    obtain ⟨document, hcheck, rfl⟩ := toRecord_eq_ok_iff.mp hread
    exact Policy.extra_of_check hcheck

theorem meets_get? (space : Space) :
    (get? space).Meets c deployment fun found => ∀ record ∈ found, record.document.Proper := by
  rw [get?, first?]
  refine keeps_settings_bind ?_
  refine (h.within_null _ space).bind fun query _ => ?_
  refine (h.search _ _).bind fun page hpage => ?_
  rcases hhits : page.hits with _ | ⟨hit, rest⟩
  · exact keeps_pure fun record hrecord => by cases hrecord
  · have hhit : hit ∈ page.hits := hhits ▸ List.mem_cons_self
    refine (keeps_ofExcept (ends_toRecord h hpage hhit space)).bind fun record hproper => ?_
    refine keeps_pure fun other hother => ?_
    cases hother
    exact hproper

theorem meets_integrationEntries (space : Space) (ids : List String)
    (paths : Option (List String)) : (integrationEntries space ids paths).Meets c deployment := by
  rw [integrationEntries]
  dsimp only
  split
  · exact keeps_pure trivial
  · refine keeps_settings_bind ?_
    refine (h.within_terms _ space _ _).bind fun query _ => ?_
    refine h.scan_any _ _ _ fun page hpage hit hhit entries => ?_
    cases hread : addIntegration entries hit with
    | ok found => trivial
    | error fault => exact h.unread page hpage hit hhit fault (.integration hread)

/-- The policies of a space, as they are listed for no query. -/
theorem meets_search (space : Space) {asked : Search} (hasked : asked.query = .null)
    (paths : Option (List String)) : (search space asked paths).Meets c deployment := by
  rw [search]
  refine keeps_settings_bind ?_
  rw [hasked]
  refine (h.within_null _ space).bind fun query _ => ?_
  refine (h.search _ _).bind fun page hpage => ?_
  have hrecords : Ends (fun _ => True) c.fails (page.hits.mapM (toRecord space)) :=
    ends_mapM fun hit hhit =>
      (ends_toRecord h hpage hhit space).mono (fun _ _ => trivial) fun _ => id
  refine (keeps_ofExcept hrecords).bind fun records _ => ?_
  exact (meets_integrationEntries h space _ paths).bind fun entries _ => keeps_pure trivial

theorem meets_editable (space : Space) (action : Action) :
    (editable space action).Meets c deployment fun record => record.document.Proper := by
  rw [editable]
  dsimp only
  split
  · exact keeps_throw (h.refused _ rfl)
  · refine (meets_get? h space).bind fun found hfound => ?_
    cases found with
    | none => exact keeps_throw (h.refused _ rfl)
    | some record => exact keeps_pure (hfound record rfl)

end

end Policies

/-! ### The gate -/

namespace Gate

open Work

section

variable (h : c.Reads deployment)

include h

theorem meets_decoderExists (space : Space) (decoder : String) :
    (decoderExists space decoder).Meets c deployment := by
  rw [decoderExists]
  refine keeps_settings_bind ?_
  refine (h.within_terms _ space _ _).bind fun query _ => ?_
  exact (h.search _ _).bind fun page _ => keeps_pure trivial

theorem meets_check (space : Space) : (check space).Meets c deployment := by
  rw [check]
  refine (Policies.meets_get? h space).bind fun policy _ => ?_
  have hsatisfied : (isSatisfied space policy).Meets c deployment := by
    cases policy with
    | none => exact keeps_pure trivial
    | some record =>
      rw [isSatisfied]
      split
      · exact keeps_pure trivial
      · exact meets_decoderExists h space _
  exact hsatisfied.bind fun satisfied _ => keeps_pure trivial

theorem meets_ensure (space : Space) : (ensure space).Meets c deployment := by
  rw [ensure]
  refine (meets_check h space).bind fun requirement _ => ?_
  split
  · exact keeps_throw (h.refused _ rfl)
  · exact keeps_pure trivial

theorem ends_toCandidate {page : Page} (hpage : c.shown page) {hit : Hit} (hhit : hit ∈ page.hits) :
    Ends (fun _ => True) c.fails (toCandidate hit) := by
  rw [toCandidate]
  cases hread : Content.documentFields hit.source with
  | error fault => exact h.unread page hpage hit hhit fault (.document hread)
  | ok fields => trivial

theorem meets_candidates (space : Space) (text : Option String) (first size : Int) :
    (candidates space text first size).Meets c deployment := by
  have hquery : ∀ fields, ∃ found,
      Scope.apply (candidateQuery text) (some space.name) fields = .ok found := by
    intro fields
    rw [candidateQuery]
    split <;> cases space <;> exact ⟨_, rfl⟩
  rw [candidates]
  refine keeps_settings_bind ?_
  refine (h.within _ space hquery).bind fun query _ => ?_
  refine (h.search _ _).bind fun page hpage => ?_
  refine (keeps_ofExcept (ends_mapM fun hit hhit => ends_toCandidate h hpage hhit)).bind
    fun items _ => ?_
  exact keeps_pure trivial

end

end Gate

/-! ### Ledgers -/

namespace Ledger

open Work

section

variable (h : c.Reads deployment)

include h

theorem meets_hashes (type : EntityType) (space : Space) :
    (hashes type space).Meets c deployment := by
  rw [hashes]
  refine keeps_settings_bind ?_
  refine (h.within_null _ space).bind fun query _ => ?_
  refine h.scan_documents _ _ [] (fun found hit fields hread => ?_) fun found hit fault hread => ?_
  · rw [addHash, hread]
    dsimp only [bind, Except.bind]
    split <;> exact ⟨_, rfl⟩
  · rw [addHash, hread]
    rfl

theorem meets_entityChanges (type : EntityType) (space target : Space) :
    (entityChanges type space target).Meets c deployment := by
  rw [entityChanges]
  refine (meets_hashes h type space).bind fun source _ => ?_
  exact (meets_hashes h type target).bind fun successor _ => keeps_pure trivial

theorem meets_policyChanges (space target : Space) :
    (policyChanges space target).Meets c deployment := by
  rw [policyChanges]
  refine (Policies.meets_get? h space).bind fun found _ => ?_
  cases found with
  | none => exact keeps_pure trivial
  | some source =>
    exact (Policies.meets_get? h target).bind fun successor _ => keeps_pure trivial

theorem meets_compared (space target : Space) : (compared space target).Meets c deployment := by
  rw [compared]
  refine (meets_policyChanges h space target).bind fun policy _ => ?_
  refine (meets_entityChanges h .integrations space target).bind fun integrations _ => ?_
  refine (meets_entityChanges h .decoders space target).bind fun decoders _ => ?_
  refine (meets_entityChanges h .kvdbs space target).bind fun kvdbs _ => ?_
  exact (meets_entityChanges h .rules space target).bind fun rules _ => keeps_pure trivial

theorem meets_changes (space target : Space) : (changes space target).Meets c deployment := by
  rw [changes]
  refine keeps_read.bind fun found hfound => ?_
  rw [hfound]
  rcases hfixed : deployment.fixedChanges with _ | value
  · rcases deployment.settings.changeLedger with _ | _
    · exact meets_compared h space target
    · exact h.told space
  · exact keeps_ofExcept (h.fixed value hfixed)

end

end Ledger

/-! ### Previews -/

namespace Preview

open Work

section

variable (h : c.Reads deployment)

include h

theorem meets_successor (space : Space) :
    (Work.ofExcept (successor space)).Meets c deployment := by
  rw [successor]
  cases space.target? with
  | none => exact keeps_ofExcept (h.refused _ rfl)
  | some target => exact keeps_ofExcept trivial

theorem meets_changesOf (space : Space) : (changesOf space).Meets c deployment := by
  rw [changesOf]
  refine (meets_successor h space).bind fun target _ => ?_
  exact (Ledger.meets_changes h space target).bind fun raw _ => keeps_pure trivial

theorem meets_namesIn (type : EntityType) (ids : List String) (space : Space) :
    (namesIn type ids space).Meets c deployment := by
  rw [namesIn]
  refine keeps_settings_bind ?_
  refine (h.within_terms _ space _ _).bind fun query _ => ?_
  refine h.scan_documents _ _ [] (fun found hit fields hread => ?_) fun found hit fault hread => ?_
  · rw [addName, hread]
    dsimp only [bind, Except.bind]
    split <;> exact ⟨_, rfl⟩
  · rw [addName, hread]
    rfl

theorem meets_namesFor (type : EntityType) (changes : List Change) (space target : Space) :
    (namesFor type changes space target).Meets c deployment := by
  rw [namesFor]
  dsimp only
  split
  · exact keeps_pure trivial
  · refine (meets_namesIn h type _ space).bind fun source _ => ?_
    exact (meets_namesIn h type _ target).bind fun successor _ => keeps_pure trivial

theorem meets_ofSpace (space : Space) : (ofSpace space).Meets c deployment := by
  rw [ofSpace]
  refine (meets_successor h space).bind fun target _ => ?_
  refine (meets_changesOf h space).bind fun found _ => ?_
  refine (meets_namesFor h .integrations _ space target).bind fun integrations _ => ?_
  refine (meets_namesFor h .decoders _ space target).bind fun decoders _ => ?_
  refine (meets_namesFor h .kvdbs _ space target).bind fun kvdbs _ => ?_
  exact (meets_namesFor h .rules _ space target).bind fun rules _ => keeps_pure trivial

end

end Preview

/-! ### The catalog -/

namespace Catalog

open Work

section

variable (h : c.Reads deployment)

include h

theorem meets_referringTitles (type : EntityType) (space : Space) (ids : List String) :
    (referringTitles type space ids).Meets c deployment := by
  rw [referringTitles]
  dsimp only
  split
  · exact keeps_pure trivial
  · refine keeps_settings_bind ?_
    refine (h.within_terms _ space _ _).bind fun query _ => ?_
    refine h.scan_any _ _ _ fun page hpage hit hhit titles => ?_
    cases hread : addTitles type ids titles hit with
    | ok found => trivial
    | error fault => exact h.unread page hpage hit hhit fault (.references hread)

/-- The entities of a space, as they are listed for no query. -/
theorem meets_search (type : EntityType) (space : Space) {asked : Search}
    (hasked : asked.query = .null) : (search type space asked).Meets c deployment := by
  rw [search]
  refine keeps_settings_bind ?_
  rw [hasked]
  refine (h.within_null _ space).bind fun query _ => ?_
  refine (h.search _ _).bind fun page hpage => ?_
  have hitems : Ends (fun _ => True) c.fails (page.hits.mapM toItem) := by
    refine ends_mapM fun hit hhit => ?_
    cases hread : toItem hit with
    | ok item => trivial
    | error fault => exact h.unread page hpage hit hhit fault (.item hread)
  refine (keeps_ofExcept hitems).bind fun items _ => ?_
  split
  · exact keeps_pure trivial
  · exact (meets_referringTitles h type space _).bind fun titles _ => keeps_pure trivial

end

end Catalog

end Lifecycle
