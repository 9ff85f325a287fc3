import SchemaLedger.Yaml.Node

/-!
# Merge keys

A merge key puts the entries of other mappings in front of those of its own one.
Merging changes a mapping for good, wherever it is reached from, and a mapping is
merged before its entries are put into another one.
-/

namespace SchemaLedger
namespace Yaml
namespace Graph

def takeMerge? (g : Graph) (n : NodeId) : Option (NodeId × Graph) :=
  let entries := g.entries n
  let before := entries.takeWhile fun (key, _) => g.tag key != .merge
  match entries.drop before.length with
  | [] => none
  | (_, value) :: after => some (value, g.setContent n (.mapping (before ++ after)))

/-- Inside a mapping a default key is a text like any other. -/
def settleKeys (g : Graph) (n : NodeId) : Graph :=
  (g.entries n).foldl
    (fun g (key, _) => if g.tag key = .default then g.setTag key .text else g) g

def putInFront (g : Graph) (n : NodeId) (entries : List Entry) : Graph :=
  if entries.isEmpty then g else g.setContent n (.mapping (entries ++ g.entries n))

def isMapping (g : Graph) (n : NodeId) : Bool :=
  match g.content n with
  | .mapping _ => true
  | .scalar _ | .sequence _ => false

/-- The mappings that the value of a merge key names, in the order in which they
are merged; nothing if it names something else.  Of several mappings the later
ones stand in front. -/
def sources? (g : Graph) (value : NodeId) : Option (List NodeId) :=
  match g.content value with
  | .mapping _ => some [value]
  | .sequence items => if items.all g.isMapping then some items else none
  | .scalar _ => none

/-- Merges a mapping; `merged` has come together so far.  Nothing if a merge key
names something else than mappings.  Every round takes away a merge key and none
is added, so as many rounds as there are entries are enough. -/
def mergeWith : (rounds : Nat) → (merged : List Entry) → NodeId → Graph → Option Graph
  | 0, _, _, g => some g
  | rounds + 1, merged, n, g =>
    match g.takeMerge? n with
    | none => some ((g.settleKeys n).putInFront n merged)
    | some (value, g) => do
      let (g, parts) ← (← g.sources? value).foldlM
        (fun (g, parts) source => do
          let g ← mergeWith rounds [] source g
          return (g, g.entries source :: parts)) (g, [])
      mergeWith rounds (merged ++ parts.flatten) n g

def entryCount (g : Graph) : Nat :=
  g.nodes.foldl (fun count node => match node.content with
    | .mapping entries => count + entries.length
    | .scalar _ | .sequence _ => count) 0

def merge? (g : Graph) (n : NodeId) : Option Graph :=
  mergeWith (g.entryCount + 1) [] n g

end Graph
end Yaml
end SchemaLedger
