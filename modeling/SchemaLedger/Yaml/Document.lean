import SchemaLedger.Yaml.Literal
import SchemaLedger.Yaml.Merge
import SchemaLedger.Yaml.Scan

/-!
# From a document to its value

The nodes of a document become values, each node one value however often it is
referred to.  Collections are made empty and filled one after the other in the
order in which they were made, and the first fault that shows up on the way is
the fault of the document.
-/

namespace SchemaLedger
namespace Yaml

/-- The text of a scalar.  A mapping has the text of its default value, which may
be a mapping again; one that is its own default value has none. -/
def Graph.textOf (g : Graph) : (rounds : Nat) → NodeId → Except Fault Text
  | 0, _ => .error (.scalar .endless)
  | rounds + 1, n =>
    match g.content n with
    | .scalar t => .ok t
    | .sequence _ => .error .document
    | .mapping entries =>
      match entries.find? fun (key, _) => g.tag key = .default with
      | some (_, value) => textOf g rounds value
      | none => .error .document

def Graph.literal (g : Graph) (n : NodeId) : Except Fault Value := do
  let text ← g.textOf (g.nodes.size + 1) n
  match g.tag n, g.content n with
  | .timestamp, .mapping _ => .error (.scalar .notScalar)
  | tag, _ => readLiteral tag n text

/-! ## Building -/

/-- The nodes, the values that were made for some of them, the collections so
far, and those of them that are still to be filled. -/
structure Building where
  graph : Graph
  made : Array (Option Value) := #[]
  collections : Array Collection := #[]
  waiting : List (NodeId × CollectionId) := []

def Building.start (graph : Graph) : Building :=
  { graph, made := Array.replicate graph.nodes.size none }

abbrev Builder := StateT Building (Except Fault)

namespace Builder

def malformed : Builder α :=
  throw .document

def newCollection (n : NodeId) (empty : Collection) : Builder Value := do
  let b ← get
  let id := b.collections.size
  set { b with
    collections := b.collections.push empty
    waiting := b.waiting ++ [(n, id)] }
  return .collection id

def make (n : NodeId) : Builder Value := do
  let g := (← get).graph
  match g.tag n with
  | .list | .pairs => newCollection n (.list [])
  | .map => newCollection n (.map [])
  | .set => newCollection n (.set [])
  | .merge | .default | .unknown => malformed
  | _ => g.literal n

def valueOf (n : NodeId) : Builder Value := do
  match (← get).made[n]?.join with
  | some v => return v
  | none =>
    let v ← make n
    modify fun b => { b with made := b.made.setIfInBounds n (some v) }
    return v

/-! ## Filling collections -/

def entryOf (entry : Entry) : Builder (Value × Value) := do
  match ← valueOf entry.1 with
  | .collection _ => malformed
  | key => return (key, ← valueOf entry.2)

def entriesOf (n : NodeId) : Builder (List (Value × Value)) := do
  let b ← get
  match b.graph.merge? n with
  | none => malformed
  | some graph =>
    set { b with graph }
    (graph.entries n).mapM entryOf

def pairOf (n : NodeId) : Builder Value := do
  match (← get).graph.content n with
  | .mapping [(key, value)] =>
    let first ← valueOf key
    return .pair first (← valueOf value)
  | _ => malformed

def contentOf (n : NodeId) : Builder Collection := do
  let g := (← get).graph
  match g.tag n, g.content n with
  | .list, .sequence items => .list <$> items.mapM valueOf
  | .pairs, .sequence items => .list <$> items.mapM pairOf
  | .map, .mapping _ =>
    let entries ← entriesOf n
    return .map (entries.foldl (fun all (key, value) => Value.insertEntry all key value) [])
  | .set, .mapping _ =>
    let entries ← entriesOf n
    return .set (entries.foldl (fun all (key, _) => Value.insertItem all key) [])
  | _, _ => malformed

/-- Fills the collections that wait.  A node gives at most one of them. -/
def fill : (rounds : Nat) → Builder Unit
  | 0 => return ()
  | rounds + 1 => do
    match (← get).waiting with
    | [] => return ()
    | (n, id) :: waiting =>
      modify fun b => { b with waiting }
      let content ← contentOf n
      modify fun b => { b with collections := b.collections.setIfInBounds id content }
      fill rounds

def document (root : NodeId) : Builder Document := do
  let root ← valueOf root
  fill ((← get).graph.nodes.size + 1)
  return ⟨root, (← get).collections⟩

end Builder

def Stop.toFault : Stop → Fault
  | .malformed => .document
  | .fault f => .scalar f

/-- What a document stands for; an empty one is null. -/
def Document.read (text : Text) : Except Fault Document := do
  let (tokens, stop) := tokensOf text
  match ← (Graph.ofTokens? tokens stop).mapError Stop.toFault with
  | none => return {}
  | some (root, graph) => ((Builder.document root).run (.start graph)).map (·.1)

end Yaml
end SchemaLedger
