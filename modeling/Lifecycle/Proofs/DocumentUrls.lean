import Lifecycle.Proofs.ErrorAnswers
import Lifecycle.Proofs.PercentEncoding

/-!
# URLs of documents

The URL of a document in the cluster is that of the cluster, without the slashes at its end, and a
path of three segments behind it: the index, `_doc`, and the storage id. Each is percent-encoded, so
that the path tells all three whatever characters they have, and has nothing else in it
(`Cluster.exists_path`). This is the URL that a document is written to and removed at
(`Cluster.document_urls`).
-/

namespace Lifecycle.Cluster

open Text (split trimEnd)

/-! ### Paths -/

/-- A path that says some names: each can be read from a segment of its own, and there is no query
and no fragment behind them. -/
structure Says (names : List String) (path : String) : Prop where
  encoded : ∀ segment ∈ split '/' path, Text.Percent.Encoded segment.toList
  decoded : (split '/' path).map Text.Percent.decode = names
  query : '?' ∉ path.toList
  fragment : '#' ∉ path.toList

variable {connection : Connection} {names : List String}

/-- Behind the base of a URL there is a path that says what it is the URL of. -/
theorem exists_path (hnames : names ≠ []) :
    ∃ path, url connection names = trimEnd '/' connection.url ++ "/" ++ path ∧
      Says names path := by
  set segments := names.map Text.Percent.encode with hsegments
  have hencoded : ∀ segment ∈ segments, Text.Percent.Encoded segment.toList := by
    intro segment hsegment
    obtain ⟨name, -, rfl⟩ := List.mem_map.mp hsegment
    exact Text.Percent.encoded_encode name
  have hsplit : split '/' (String.intercalate "/" segments) = segments :=
    Text.split_intercalate (by simpa [hsegments] using hnames) fun segment hsegment =>
      (hencoded segment hsegment).not_mem (by decide)
  have hclean : ∀ c ∈ ['?', '#'], c ∉ (String.intercalate "/" segments).toList := by
    intro c hc hmem
    rw [String.toList_intercalate] at hmem
    rcases Text.mem_of_mem_intercalate hmem with hslash | ⟨piece, hpiece, hmem⟩
    · have hother : ∀ c ∈ ['?', '#'], c ∉ "/".toList := by simp
      exact hother c hc hslash
    · obtain ⟨segment, hsegment, rfl⟩ := List.mem_map.mp hpiece
      exact (hencoded segment hsegment).not_mem (List.mem_cons_of_mem '/' hc) hmem
  refine ⟨String.intercalate "/" segments, rfl, ?_, ?_, hclean '?' (by decide),
    hclean '#' (by decide)⟩
  · rw [hsplit]
    exact hencoded
  · rw [hsplit, hsegments, List.map_map]
    simp [Function.comp_def, Text.Percent.decode_encode]

/-- A URL tells what it is the URL of. -/
theorem url_injective {others : List String} (hnames : names ≠ []) (hothers : others ≠ [])
    (h : url connection names = url connection others) : names = others := by
  obtain ⟨path, hurl, hsays⟩ := @exists_path connection names hnames
  obtain ⟨other, hother, hsaysOther⟩ := @exists_path connection others hothers
  have hpaths : path = other := by
    rw [hurl, hother] at h
    exact (String.append_right_inj _).mp h
  rw [← hsays.decoded, ← hsaysOther.decoded, hpaths]

/-! ### Documents -/

/-- What the URLs of documents say. -/
structure DocumentUrls (deployment : Deployment) (world : World) : Prop where
  /-- The base is the URL of the cluster without the slashes at its end. -/
  base : ∃ n, deployment.connection.url.toList =
      (trimEnd '/' deployment.connection.url).toList ++ List.replicate n '/' ∧
    (trimEnd '/' deployment.connection.url).toList.getLast? ≠ some '/'
  /-- Behind it there are three segments, which say the index and the storage id. -/
  path : ∀ index id, ∃ path,
    url deployment.connection [index, "_doc", id] =
        trimEnd '/' deployment.connection.url ++ "/" ++ path ∧
      Says [index, "_doc", id] path
  /-- Two documents never share a URL. -/
  injective : ∀ {index id other otherId},
    url deployment.connection [index, "_doc", id] =
        url deployment.connection [other, "_doc", otherId] →
      index = other ∧ id = otherId
  /-- A document is written to its URL. -/
  upsert : ∀ index id body, ∃ request : Exchange,
    ((upsert index id body).runOn deployment world).2 = world.exchanged request ∧
      request.url = url deployment.connection [index, "_doc", id]
  /-- A document is removed at its URL. -/
  delete : ∀ index id, ∃ request : Exchange,
    ((delete index id).runOn deployment world).2 = world.exchanged request ∧
      request.url = url deployment.connection [index, "_doc", id]

/-- The URL of a document says its index and its storage id, and nothing else. -/
theorem document_urls (deployment : Deployment) (world : World) :
    DocumentUrls deployment world where
  base := Text.exists_replicate_of_trimEnd '/' deployment.connection.url
  path _ _ := exists_path (List.cons_ne_nil _ _)
  injective h := by
    have hnames := url_injective (List.cons_ne_nil _ _) (List.cons_ne_nil _ _) h
    simpa using hnames
  upsert index id body :=
    ⟨_, congrArg Prod.snd (Operation.runOn_eq (.upsert index id body)), rfl⟩
  delete index id :=
    ⟨_, congrArg Prod.snd (Operation.runOn_eq (.delete index id)), rfl⟩

/-- Slashes, percent signs and marks of a query in a storage id stay in its segment. -/
example : url {} [".cti-rules", "_doc", "a/b?%é"] =
    "https://localhost:9200/.cti-rules/_doc/a%2Fb%3F%25%C3%A9" := by decide +kernel

end Lifecycle.Cluster
