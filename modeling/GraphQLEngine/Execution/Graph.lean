import GraphQLEngine.Execution.Error
import GraphQLEngine.OrderedMap

/-!
# The graph of an answer

The answer under construction is an arena of nodes that know their parents.  That is what passing
on null needs: where a node that must not be null ends up null, its parent is made null instead,
and so on up to a node that may be null, or to the root.

Children are made after their parents, so parents have smaller and children larger numbers; the
walks up and down the graph follow only such links, and end for that reason.
-/

namespace GraphQLEngine

inductive NodeContent where
  | pending
  | null
  | leaf (v : Json)
  /-- The child of each output name. -/
  | object (entries : OrderedMap Nat)
  | list (items : List Nat)
deriving Inhabited

structure GraphNode where
  parent : Option Nat
  nonNull : Bool
  content : NodeContent
deriving Inhabited

structure Graph where
  nodes : Array GraphNode
  /-- The errors so far, in the order in which they were recorded. -/
  errors : List ReportedError
deriving Inhabited

namespace Graph

/-- The number of the root. -/
def root : Nat := 0

/-- A graph of the root alone: an object without fields. -/
def new : Graph := ⟨#[⟨none, false, .object []⟩], []⟩

def size (g : Graph) : Nat := g.nodes.size

def setContent (g : Graph) (node : Nat) (c : NodeContent) : Graph :=
  { g with nodes := g.nodes.modify node fun n => { n with content := c } }

def content? (g : Graph) (node : Nat) : Option NodeContent := (g.nodes[node]?).map (·.content)

/-! ## Growing -/

def push (g : Graph) (parent : Nat) (nonNull : Bool) : Graph :=
  { g with nodes := g.nodes.push ⟨some parent, nonNull, .pending⟩ }

/-- Add a field to an object; it is the node with the number `size g`.  A field of an output name
that the object has takes the place of the earlier one. -/
def addField (g : Graph) (object : Nat) (outputName : String) (nonNull : Bool) : Graph :=
  let id := g.size
  let g := g.push object nonNull
  match g.content? object with
  | some (.object entries) => g.setContent object (.object (entries.insert outputName id))
  | _ => g

/-- Add an item at the end of a list; it is the node with the number `size g`. -/
def addItem (g : Graph) (list : Nat) (nonNull : Bool) : Graph :=
  let id := g.size
  let g := g.push list nonNull
  match g.content? list with
  | some (.list items) => g.setContent list (.list (items ++ [id]))
  | _ => g

def setLeaf (g : Graph) (node : Nat) (v : Json) : Graph := g.setContent node (.leaf v)

def setObject (g : Graph) (node : Nat) : Graph := g.setContent node (.object [])

def setList (g : Graph) (node : Nat) : Graph := g.setContent node (.list [])

/-! ## Null -/

/-- Make a node null, and its parents as long as the nodes made null must not be. -/
def nullify (g : Graph) (node : Nat) : Graph :=
  match g.nodes[node]? with
  | none => g
  | some n =>
    let g := g.setContent node .null
    match n.parent with
    | none => g
    | some parent => if n.nonNull then (if parent < node then nullify g parent else g) else g
termination_by node

/-- Whether a node, or one above it, is null. -/
def isNulled (g : Graph) (node : Nat) : Bool :=
  match g.nodes[node]? with
  | none => false
  | some n =>
    match n.content with
    | .null => true
    | _ =>
      match n.parent with
      | none => false
      | some parent => if parent < node then isNulled g parent else false
termination_by node

def recordError (g : Graph) (e : FieldError) (path : Path) : Graph :=
  { g with errors := g.errors ++ [.ofField e path] }

/-- Record an error at a node, which is null because of it. -/
def fail (g : Graph) (node : Nat) (e : FieldError) (path : Path) : Graph :=
  (g.recordError e path).nullify node

/-! ## Reading -/

/-- The value of a node; one that was never completed is null. -/
def toJson (g : Graph) (node : Nat) : Json :=
  match g.content? node with
  | some (.leaf v) => v
  | some (.object entries) =>
    .obj (entries.map fun (name, child) =>
      (name, if node < child ∧ child < g.size then toJson g child else .null))
  | some (.list items) =>
    .arr (items.map fun child =>
      if node < child ∧ child < g.size then toJson g child else .null)
  | _ => .null
termination_by g.size - node

/-- The data of an answer; none if the root is null. -/
def data (g : Graph) : Option Json :=
  match g.content? root with
  | some .null => none
  | _ => some (g.toJson root)

def response (g : Graph) : Response := ⟨g.data, g.errors⟩

end Graph

end GraphQLEngine
