/-!
# Directed edges

An edge goes from a supertype to a subtype.  Two edges are the same exactly when both of
their ends are, so a link that is met from either of its ends is one edge.
-/

namespace Lineage

/-- An edge between two vertices. -/
structure Edge (V : Type) where
  source : V
  target : V
deriving DecidableEq

namespace Edge

variable {V W : Type}

/-- The side on which an edge has its far end, as seen from the other one. -/
inductive Side where
  | source
  | target

namespace Side

/-- The edge with the far end on one side and the near end on the other. -/
def join (side : Side) (far near : V) : Edge V :=
  match side with
  | .source => ⟨far, near⟩
  | .target => ⟨near, far⟩

/-- The far end of an edge. -/
def far (side : Side) (e : Edge V) : V :=
  match side with
  | .source => e.source
  | .target => e.target

/-- The near end of an edge. -/
def near (side : Side) (e : Edge V) : V :=
  match side with
  | .source => e.target
  | .target => e.source

end Side

/-- The edge with each end replaced by its image. -/
def map (f : V → W) (e : Edge V) : Edge W := ⟨f e.source, f e.target⟩

/-- The edges of a list, each once. -/
def distinct [DecidableEq V] (edges : List (Edge V)) : List (Edge V) := edges.eraseDups

/-- Whether two lists of edges have the same edges. -/
def sameSet [DecidableEq V] (xs ys : List (Edge V)) : Bool :=
  xs.all ys.contains && ys.all xs.contains

/-- Whether `e` comes before `f` or with it, by the names of the sources and then by those
of the targets. -/
def le (e f : Edge String) : Bool :=
  e.source < f.source || (e.source = f.source && e.target ≤ f.target)

/-- The edges in the order of the names of their ends. -/
def sorted (name : V → String) (edges : List (Edge V)) : List (Edge V) :=
  edges.mergeSort fun e f => le (e.map name) (f.map name)

/-- An edge as it is shown. -/
def text (e : Edge String) : String := e.source ++ " -> " ++ e.target

/-- An edge as it is written out in full. -/
def details (e : Edge String) : String := "DirectedEdge(" ++ e.text ++ ")"

end Edge

end Lineage
