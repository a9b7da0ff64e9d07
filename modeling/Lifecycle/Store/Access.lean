import Lifecycle.Store.Cluster

/-!
# Access to the document store

The operations of the store, whichever backend a deployment has. `Store.scan` goes through
everything a query finds, one page at a time, and hands each document to a step as soon as its page
is there.
-/

namespace Lifecycle.Store

/-! ### Operations -/

def search (index : String) (search : Search) : Work Page := do
  match (← read).backend with
  | .cluster => Cluster.search index search
  | .memory => do
    Work.call (.search index search)
    Work.ofExcept ((← get).memory.search index search)

/-- The documents with some storage ids; ids without a document are passed over. -/
def byIds (index : String) (ids : List String) : Work (List Hit) := do
  match (← read).backend with
  | .cluster => Cluster.byIds index ids
  | .memory => do
    Work.call (.byIds index ids)
    pure ((← get).memory.byIds index ids)

/-- What can be done with some fields of an index. -/
def fieldCapabilities (index : String) (fields : List String) : Work Json := do
  let deployment ← read
  match deployment.backend with
  | .cluster => Cluster.fieldCapabilities index fields
  | .memory => do
    Work.call (.fieldCapabilities index fields)
    match deployment.capabilities.get? index with
    | some answer => pure answer
    | none => Work.ofExcept ((← get).memory.fieldCapabilities index fields)

/-- Writes a document, in place of the one with the same storage id if there is one. -/
def upsert (index id : String) (body : Table Json) : Work Unit := do
  match (← read).backend with
  | .cluster => Cluster.upsert index id body
  | .memory => do
    Work.call (.upsert index id body)
    modify fun world => { world with memory := world.memory.put index id body }

/-- Removes a document; one that is not there needs no removal. -/
def delete (index id : String) : Work Unit := do
  match (← read).backend with
  | .cluster => Cluster.delete index id
  | .memory => do
    Work.call (.delete index id)
    modify fun world => { world with memory := world.memory.delete index id }

/-! ### Scans -/

/-- The order of the index. -/
def indexOrder : Json := .list [.object [("_doc", .object [("order", .text "asc")])]]

structure Scan where
  query : Json := .null
  source : Json := .null
  pageSize : Int := 500
  deriving DecidableEq, Repr

def Scan.pageFrom (scan : Scan) (offset : Nat) : Search :=
  { query := scan.query
    sort := indexOrder
    first := offset
    size := scan.pageSize
    source := scan.source }

/-- Goes through the pages of a scan from an offset on, at most `fuel` of them. -/
def scanPages {β : Type} (index : String) (scan : Scan) (step : β → Hit → Except Fault β) :
    Nat → Nat → β → Work β
  | 0, _, result => pure result
  | fuel + 1, offset, result => do
    let page ← search index (scan.pageFrom offset)
    let result ← Work.ofExcept (page.hits.foldlM step result)
    let offset := offset + page.hits.length
    if page.hits.isEmpty || (offset : Int) ≥ page.total then pure result
    else scanPages index scan step fuel offset result

/-- No scan of an index has more pages. Every page but the last has a document: one of those in
memory, or one of a page that took a reply of the cluster. -/
def pageBound (world : World) (index : String) : Nat :=
  (world.memory.documents index).length + world.replies.length + 1

def scan {β : Type} (index : String) (scan : Scan) (start : β)
    (step : β → Hit → Except Fault β) : Work β := do
  let bound := pageBound (← get) index
  scanPages index scan step bound 0 start

def scanAll (index : String) (scanned : Scan) : Work (List Hit) :=
  scan index scanned [] fun hits hit => .ok (hits ++ [hit])

end Lifecycle.Store
