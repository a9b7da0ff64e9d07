import Lifecycle.Proofs.Effect
import Lifecycle.Proofs.Requests

/-!
# Runs of requests

Requests are served one after another, each with its own failing calls (`Service.serveAll`). Since
each of them leaves the indexes parted among the spaces, each has one of the effects that a request
can have, however long the run is, and so (`serve_isolated`):

* nothing changes in `standard`, nor in the entities of `draft`;
* the documents of `custom` change only where `test` is promoted;
* no promotion changes the documents of the space that it promotes.
-/

namespace Lifecycle

variable {deployment : Deployment} {world : World}

namespace Service

/-! ### Serving -/

/-- A request, and the rules by which calls fail while it is served. -/
structure Event where
  request : Request
  rules : List FailureRule := []
  deriving DecidableEq, Repr

def serve (deployment : Deployment) (world : World) (event : Event) : World :=
  ((handle event.request).runOn deployment (world.under event.rules)).2

def serveAll (deployment : Deployment) (world : World) (events : List Event) : World :=
  events.foldl (serve deployment) world

theorem serveAll_cons (event : Event) (rest : List Event) :
    serveAll deployment world (event :: rest) =
      serveAll deployment (serve deployment world event) rest :=
  List.foldl_cons

theorem serveAll_concat (events : List Event) (event : Event) :
    serveAll deployment world (events ++ [event]) =
      serve deployment (serveAll deployment world events) event :=
  List.foldl_append

/-! ### Effects on the spaces -/

section

variable {request : Request} {later : World}

/-- A body of `draft` in place of the document that its policy is read from keeps the contents but
for the documents of `draft`. -/
theorem kept_of_edit (h : deployment.Standard) (hworld : world.Standing)
    (hparted : world.memory.Parted) {record : PolicyRecord} {body : Table Json} {read : World}
    (hfound : (Policies.get? .draft).runOn deployment (world.under []) = (.ok (some record), read))
    (hbody : ∀ space, Scope.belongs space body = true ↔ space = .draft) :
    world.memory.Kept (world.memory.put ".cti-policies" record.docId body) .draft := by
  have hindex : ".cti-policies" ∈ contentIndexes := by decide
  have hprobed : (world.under []).Probed := hworld.probed
  have hget : (Policies.get? .draft).Performs deployment (world.under []) [] _ :=
    Policies.performs_found h hprobed .draft
  obtain ⟨hmem, hbelongs⟩ := Policies.mem_of_found hworld.mapped (hget.of_ok hfound).1
  have hstays : (Call.upsert ".cti-policies" record.docId body).StaysIn world.memory .draft :=
    ⟨hindex, (hparted _ hindex).open_of_mem hmem hbelongs, hbody⟩
  exact Memory.kept_apply hparted hstays

/-- What an effect keeps: all contents; or all but the documents of the successor of a space that is
promoted; or all but the policy of `draft`. -/
theorem Effect.kept (h : deployment.Standard) (hworld : world.Standing)
    (hparted : world.memory.Parted) (heffect : Effect deployment request world later) :
    later.memory = world.memory ∨
      (∃ space target, request.Promotes space ∧ space.next? = some target ∧
        world.memory.Kept later.memory target) ∨
      request.method = "PUT" ∧ world.memory.Kept later.memory .draft ∧
        ∀ type, later.memory.entities type = world.memory.entities type := by
  cases heffect with
  | unchanged memory => exact .inl memory
  | promoted space target asked next kept => exact .inr (.inl ⟨space, target, asked, next, kept⟩)
  | edited method record body read found own memory =>
    rw [memory]
    refine .inr (.inr ⟨method, kept_of_edit h hworld hparted found own, fun type => ?_⟩)
    have hne : (Call.upsert ".cti-policies" record.docId body).index ≠
        ({} : ContentSettings).indexFor type := (indexFor_ne_policies type).symm
    exact Memory.documents_apply_of_ne hne

theorem Request.Promotes.unique {space other : Space} (h : request.Promotes space)
    (h' : request.Promotes other) : space = other := by
  obtain ⟨-, changes, hchanges⟩ := h
  obtain ⟨-, changes', hchanges'⟩ := h'
  rw [hchanges] at hchanges'
  exact congrArg PromotionRequest.space (Checked.good.inj hchanges')

end

/-! ### Runs -/

/-- What a run of requests does to contents that are parted among the spaces. -/
structure Isolated (deployment : Deployment) (world : World) (events : List Event) : Prop where
  /-- Each request is answered, and has one of the effects on what it finds. -/
  confined : ∀ earlier event later, events = earlier ++ event :: later → ∃ answer,
    (handle event.request).runOn deployment
        ((serveAll deployment world earlier).under event.rules) =
      (.ok answer, serveAll deployment world (earlier ++ [event])) ∧
    Confined deployment event.request ((serveAll deployment world earlier).under event.rules)
      answer (serveAll deployment world (earlier ++ [event]))
  standard : ∀ index ∈ contentIndexes,
    ((serveAll deployment world events).memory.documents index).part .standard =
      (world.memory.documents index).part .standard
  draft : ∀ type,
    ((serveAll deployment world events).memory.entities type).part .draft =
      (world.memory.entities type).part .draft
  custom : ∀ earlier event later, events = earlier ++ event :: later →
    event.request.Promotes .test ∨ ∀ index ∈ contentIndexes,
      ((serveAll deployment world (earlier ++ [event])).memory.documents index).part .custom =
        ((serveAll deployment world earlier).memory.documents index).part .custom
  sources : ∀ earlier event later, events = earlier ++ event :: later →
    ∀ space, event.request.Promotes space → ∀ index ∈ contentIndexes,
      ((serveAll deployment world (earlier ++ [event])).memory.documents index).part space =
        ((serveAll deployment world earlier).memory.documents index).part space

section

variable (h : deployment.Standard) (hworld : world.Standing) (hparted : world.memory.Parted)

include h hworld hparted

/-- One more request leaves a world that requests can be served in. -/
theorem serve_step (event : Event) :
    ∃ answer, (handle event.request).runOn deployment (world.under event.rules) =
        (.ok answer, serve deployment world event) ∧
      Confined deployment event.request (world.under event.rules) answer
        (serve deployment world event) ∧
      (serve deployment world event).Standing ∧ (serve deployment world event).memory.Parted := by
  have hunder := hworld.under event.rules
  obtain ⟨answer, later, done, failed, hrun, hafter, hconfined⟩ :=
    answered h hunder hparted event.request
  have hserve : serve deployment world event = later := by rw [serve, hrun]
  rw [hserve]
  refine ⟨answer, hrun, hconfined, hunder.after hafter, ?_⟩
  rcases hconfined.effect.kept h hunder hparted with hsame | ⟨_, _, -, -, hkept⟩ | ⟨-, hkept, -⟩
  · rw [hsame]
    exact hparted
  · exact hkept.parted
  · exact hkept.parted

/-- Requests leave a world that requests can be served in. -/
theorem serveAll_invariant (events : List Event) :
    (serveAll deployment world events).Standing ∧
      (serveAll deployment world events).memory.Parted := by
  induction events generalizing world with
  | nil => exact ⟨hworld, hparted⟩
  | cons event rest ih =>
    obtain ⟨-, -, -, hstanding, hlater⟩ := serve_step h hworld hparted event
    rw [serveAll_cons]
    exact ih hstanding hlater

/-- A request changes documents only of the successor of a space that it promotes, or of the
policy of `draft`. -/
theorem part_serve (event : Event) {space : Space} {index : String}
    (hindex : index ∈ contentIndexes)
    (hpromotes : ∀ source, event.request.Promotes source → source.next? ≠ some space)
    (hedit : space = .draft → event.request.method = "PUT" →
      ∃ type, index = ({} : ContentSettings).indexFor type) :
    ((serve deployment world event).memory.documents index).part space =
      (world.memory.documents index).part space := by
  have hunder := hworld.under event.rules
  obtain ⟨answer, -, hconfined, -, -⟩ := serve_step h hworld hparted event
  rcases hconfined.effect.kept h hunder hparted with
    hsame | ⟨source, target, hsource, hnext, hkept⟩ | ⟨hput, hkept, hentities⟩
  · rw [hsame]
    rfl
  · have hne : space ≠ target := by
      rintro rfl
      exact hpromotes source hsource hnext
    exact hkept.part hparted hne hindex
  · by_cases hspace : space = .draft
    · obtain ⟨type, rfl⟩ := hedit hspace hput
      exact congrArg (Documents.part · space) (hentities type)
    · exact hkept.part hparted hspace hindex

/-- What every request leaves in a space, a run leaves. -/
theorem part_serveAll {space : Space} {index : String} (hindex : index ∈ contentIndexes)
    (hnext : ∀ source : Space, source.next? ≠ some space)
    (hedit : space = .draft → ∃ type, index = ({} : ContentSettings).indexFor type)
    (events : List Event) :
    ((serveAll deployment world events).memory.documents index).part space =
      (world.memory.documents index).part space := by
  induction events generalizing world with
  | nil => rfl
  | cons event rest ih =>
    obtain ⟨-, -, -, hstanding, hlater⟩ := serve_step h hworld hparted event
    rw [serveAll_cons]
    exact (ih hstanding hlater).trans
      (part_serve h hworld hparted event hindex (fun source _ => hnext source)
        fun hspace _ => hedit hspace)

end

end Service

open Service

/-- However long a run of requests is, whatever they ask for and whichever calls fail, they keep to
the spaces. -/
theorem serve_isolated (h : deployment.Standard) (hworld : world.Standing)
    (hparted : world.memory.Parted) (events : List Event) :
    Isolated deployment world events where
  confined earlier event later _ := by
    obtain ⟨hstanding, hreached⟩ := serveAll_invariant h hworld hparted earlier
    obtain ⟨answer, hrun, hconfined, -, -⟩ := serve_step h hstanding hreached event
    rw [serveAll_concat]
    exact ⟨answer, hrun, hconfined⟩
  standard index hindex := by
    have hother : Space.standard ≠ .draft := by decide
    refine part_serveAll h hworld hparted hindex (fun source => ?_)
      (fun hspace => absurd hspace hother) events
    cases source <;> decide
  draft type := by
    refine part_serveAll h hworld hparted (indexFor_mem type) (fun source => ?_)
      (fun _ => ⟨type, rfl⟩) events
    cases source <;> decide
  custom earlier event later _ := by
    obtain ⟨hstanding, hreached⟩ := serveAll_invariant h hworld hparted earlier
    rw [serveAll_concat]
    by_cases htest : event.request.Promotes .test
    · exact .inl htest
    · refine .inr fun index hindex => part_serve h hstanding hreached event hindex ?_ nofun
      intro source hsource hnext
      -- only `test` comes before `custom`
      cases source with
      | test => exact htest hsource
      | draft => cases hnext
      | custom => cases hnext
      | standard => cases hnext
  sources earlier event later _ space hspace index hindex := by
    obtain ⟨hstanding, hreached⟩ := serveAll_invariant h hworld hparted earlier
    rw [serveAll_concat]
    refine part_serve h hstanding hreached event hindex ?_ ?_
    · intro source hsource hnext
      rw [hsource.unique hspace] at hnext
      cases space <;> cases hnext
    · intro _ hput
      have hpost := method_of_routeOf? hspace.1
      rw [hput] at hpost
      exact absurd hpost (by decide)

/-! ### A run -/

/-- Contents with one document that names its space, under a storage id that is made for none, are
parted. -/
theorem Documents.parted_singleton (target : Space) {key : String} {body fields : Table Json}
    (hspace : body.get? "space" = some (.object fields))
    (hname : fields.get? "name" = some (.text target.name)) (hkey : ':' ∉ key.toList) :
    Documents.Parted [(key, body)] where
  distinct := List.nodup_singleton key
  oneSpace entry hmem := by
    rw [List.mem_singleton.mp hmem]
    exact ⟨target, fun other => Content.belongs_iff_of_name hspace hname⟩
  placed entry hmem space id hplace := by
    rw [List.mem_singleton.mp hmem] at hplace
    exact absurd hplace (documentId_ne space id hkey)

theorem oneDecoder_parted : oneDecoder.memory.Parted := by
  intro index hindex
  have hnone : Documents.Parted [] := ⟨Table.Distinct.nil, nofun, nofun⟩
  have hdecoder : (oneDecoder.memory.documents ".cti-decoders").Parted :=
    Documents.parted_singleton .test rfl rfl (by decide)
  simp only [contentIndexes, List.mem_cons, List.not_mem_nil, or_false] at hindex
  rcases hindex with rfl | rfl | rfl | rfl | rfl
  · exact hnone
  · exact hdecoder
  · exact hnone
  · exact hnone
  · exact hnone

/-- Two requests to promote the decoder, of which the first one fails at its write. -/
def twoPromotions : List Event :=
  let promotion : Request :=
    { method := "POST", path := "/promote"
      body := "\x7b\"space\": \"test\", \"changes\": \x7b\"decoders\": " ++
        "[\x7b\"id\": \"x\", \"operation\": \"add\"\x7d]\x7d\x7d" }
  [⟨promotion, [⟨.upsert, none, 0, 1, .store "down" none⟩]⟩, ⟨promotion, []⟩]

/-- The second request adds the copy of the decoder. -/
theorem serve_isolated_twoPromotions :
    Isolated {} oneDecoder twoPromotions ∧
      ((serveAll {} oneDecoder twoPromotions).memory.entities .decoders).length = 2 := by
  refine ⟨serve_isolated Deployment.standard_default oneDecoder_standing oneDecoder_parted _, ?_⟩
  decide +kernel

end Lifecycle
