import SourceAtlas.Proofs.Diagram.View
set_option autoImplicit false

namespace SourceAtlas

open Json

structure Document where
  nodes : Option Json
  edges : Option Json
  foreign : List String
deriving DecidableEq

namespace Document

def empty : Document := ⟨none, none, []⟩

def add (document : Document) (key : String) (cs : List Char) :
    Except Fault (Document × List Char) := do
  match key with
  | "nodes" =>
    let (value, rest) ← readMember (readValue (innerDepth + 2)) cs
    .ok ({ document with nodes := some value }, rest)
  | "edges" =>
    let (value, rest) ← readMember (readValue (innerDepth + 2)) cs
    .ok ({ document with edges := some value }, rest)
  | _ => do
    let rest ← skipValue (← readColon cs)
    .ok ({ document with foreign := document.foreign ++ [key] }, rest)

def readFront (cs : List Char) : Except Fault (Document × List Char) :=
  match skipGap cs with
  | '[' :: rest => do
    let (nodes, rest) ← Diagram.readSection true (readValue (innerDepth + 2)) rest
    let (edges, rest) ← Diagram.readSection nodes.isNone (readValue (innerDepth + 2)) rest
    let rest ← closeList rest
    .ok (⟨nodes, edges, []⟩, rest)
  | '{' :: rest => readMembers add ('{' :: rest) true empty rest
  | rest => refuse "a document" rest

/-- The document that a text holds, and nothing else. -/
def read (text : String) : Except Fault Document := do
  let (document, rest) ← readFront text.toList
  readEnd rest
  .ok document

end Document

namespace Diagram

def IsSection {α : Type} (R : α → Json → Prop) (items : List α) : Option Json → Prop
  | none => items = []
  | some value => IsList R items value

structure Views (diagram : Diagram) (document : Document) : Prop where
  nodes : IsSection Node.Views diagram.nodes document.nodes
  edges : IsSection Edge.Views diagram.edges document.edges
  foreign : ∀ key ∈ document.foreign, key ≠ "nodes" ∧ key ≠ "edges"

structure Draft.Views (draft : Draft) (document : Document) : Prop where
  nodes : Option.Rel (IsList Node.Views) draft.nodes document.nodes
  edges : Option.Rel (IsList Edge.Views) draft.edges document.edges
  foreign : ∀ key ∈ document.foreign, key ≠ "nodes" ∧ key ≠ "edges"

theorem isSection_getD {α : Type} {R : α → Json → Prop} {items : Option (List α)}
    {found : Option Json} (shown : Option.Rel (IsList R) items found) :
    IsSection R (items.getD []) found := by
  cases shown with
  | none => rfl
  | some shown => exact shown

theorem Draft.Views.finish {draft : Draft} {document : Document} (views : draft.Views document) :
    draft.finish.Views document :=
  ⟨isSection_getD views.nodes, isSection_getD views.edges, views.foreign⟩

theorem nodes_follows :
    Follows (IsList Node.Views) (readList Node.read) (readValue (innerDepth + 2)) :=
  readList_follows Node.read_follows

theorem edges_follows :
    Follows (IsList Edge.Views) (readList Edge.read) (readValue (innerDepth + 2)) :=
  readList_follows Edge.read_follows

theorem Draft.add_follows (draft : Draft) (document : Document) (key : String)
    (views : draft.Views document) :
    Follows Draft.Views (draft.add key) (document.add key) := by
  intro cs next rest read
  unfold Draft.add at read
  split at read
  · obtain ⟨⟨field, behind⟩, one, read⟩ := bind_eq_ok.1 read
    obtain ⟨rfl, rfl⟩ := Prod.mk.inj (Except.ok.inj read)
    obtain ⟨value, taken, items, rfl, shown⟩ := readOnce_follows nodes_follows _ _ _ _ _ one
    exact ⟨{ document with nodes := some value }, bind_eq_ok.2 ⟨_, taken, rfl⟩, .some shown,
      views.edges, views.foreign⟩
  · obtain ⟨⟨field, behind⟩, one, read⟩ := bind_eq_ok.1 read
    obtain ⟨rfl, rfl⟩ := Prod.mk.inj (Except.ok.inj read)
    obtain ⟨value, taken, items, rfl, shown⟩ := readOnce_follows edges_follows _ _ _ _ _ one
    exact ⟨{ document with edges := some value }, bind_eq_ok.2 ⟨_, taken, rfl⟩, views.nodes,
      .some shown, views.foreign⟩
  · next noNodes noEdges =>
    obtain ⟨start, colon, read⟩ := bind_eq_ok.1 read
    obtain ⟨behind, skipped, read⟩ := bind_eq_ok.1 read
    obtain ⟨rfl, rfl⟩ := Prod.mk.inj (Except.ok.inj read)
    refine ⟨{ document with foreign := document.foreign ++ [key] }, ?_, views.nodes, views.edges,
      ?_⟩
    · unfold Document.add
      split
      · exact absurd rfl noNodes
      · exact absurd rfl noEdges
      · exact bind_eq_ok.2 ⟨start, colon, bind_eq_ok.2 ⟨behind, skipped, rfl⟩⟩
    · intro other mem
      rcases List.mem_append.1 mem with old | new
      · exact views.foreign other old
      · exact List.mem_singleton.1 new ▸ ⟨noNodes, noEdges⟩

theorem readSection_follows {α β : Type} {R : α → β → Prop} {item : Reader α} {other : Reader β}
    (follows : Follows R item other) (first : Bool) :
    Follows (Option.Rel R) (readSection first item) (readSection first other) := by
  intro cs found rest read
  obtain ⟨⟨more, front⟩, next, read⟩ := bind_eq_ok.1 read
  cases more with
  | true =>
    obtain ⟨⟨a, behind⟩, one, read⟩ := bind_eq_ok.1 read
    obtain ⟨rfl, rfl⟩ := Prod.mk.inj (Except.ok.inj read)
    obtain ⟨b, taken, related⟩ := follows _ _ _ one
    exact ⟨some b, bind_eq_ok.2 ⟨_, next, bind_eq_ok.2 ⟨_, taken, rfl⟩⟩, .some related⟩
  | false =>
    obtain ⟨rfl, rfl⟩ := Prod.mk.inj (Except.ok.inj read)
    exact ⟨none, bind_eq_ok.2 ⟨_, next, rfl⟩, .none⟩

theorem readDocument_follows : Follows Diagram.Views readDocument Document.readFront := by
  intro cs diagram rest read
  unfold readDocument at read
  split at read
  · next tail skipped =>
    obtain ⟨⟨nodes, front⟩, first, read⟩ := bind_eq_ok.1 read
    obtain ⟨⟨edges, middle⟩, second, read⟩ := bind_eq_ok.1 read
    obtain ⟨behind, close, read⟩ := bind_eq_ok.1 read
    obtain ⟨rfl, rfl⟩ := Prod.mk.inj (Except.ok.inj read)
    obtain ⟨nodes', first', shownNodes⟩ := readSection_follows nodes_follows _ _ _ _ first
    obtain ⟨edges', second', shownEdges⟩ := readSection_follows edges_follows _ _ _ _ second
    have same : nodes.isNone = nodes'.isNone := by cases shownNodes <;> rfl
    rw [same] at second'
    have views : Draft.Views ⟨nodes, edges⟩ ⟨nodes', edges', []⟩ :=
      ⟨shownNodes, shownEdges, by simp⟩
    refine ⟨⟨nodes', edges', []⟩, ?_, views.finish⟩
    rw [Document.readFront, skipped]
    exact bind_eq_ok.2 ⟨_, first', bind_eq_ok.2 ⟨_, second', bind_eq_ok.2 ⟨_, close, rfl⟩⟩⟩
  · next tail skipped =>
    obtain ⟨⟨draft, behind⟩, gathered, read⟩ := bind_eq_ok.1 read
    obtain ⟨rfl, rfl⟩ := Prod.mk.inj (Except.ok.inj read)
    have start : Draft.Views Draft.empty Document.empty := ⟨.none, .none, by simp [Document.empty]⟩
    obtain ⟨document, taken, views⟩ := Follows.readMembers Draft.add_follows _ _ start _ _ _ gathered
    refine ⟨document, ?_, views.finish⟩
    rw [Document.readFront, skipped]
    exact taken
  · exact absurd read refuse_ne_ok

theorem document_of_read {text : String} {diagram : Diagram}
    (read : Diagram.read text = .ok diagram) :
    ∃ document, Document.read text = .ok document ∧ diagram.Views document := by
  obtain ⟨⟨found, rest⟩, front, read⟩ := bind_eq_ok.1 read
  obtain ⟨_, behind, read⟩ := bind_eq_ok.1 read
  obtain rfl := Except.ok.inj read
  obtain ⟨document, taken, views⟩ := readDocument_follows _ _ _ front
  exact ⟨document, bind_eq_ok.2 ⟨_, taken, bind_eq_ok.2 ⟨_, behind, rfl⟩⟩, views⟩

end Diagram

end SourceAtlas
