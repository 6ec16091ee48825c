import BacktestVisualizer.Framework.PyModule

/-! # Syntax Trees with Lines

  A node of a syntax tree as `ast` has it: the line it starts on, what kind of
  node it is, and its fields, each a list of nodes. Names of attributes and
  imports are part of the kind. Nodes that only mark how a name is used are
  left out, and so are the aliases of an import.
-/

namespace PyTree

inductive Kind where
  | name (id : String)
  /-- Its field is the `value`. -/
  | attribute (attr : String)
  /-- Its fields are `func`, `args` and `keywords`. -/
  | call
  /-- A string, or another constant. -/
  | constant (text : Option String)
  /-- Its fields are `keys` and `values`. -/
  | dict
  /-- Its field is `elts`. -/
  | tuple
  | import_module (names : List PyModule.Alias)
  | import_from (level : ℕ) (module : Option String) (names : List PyModule.Alias)
  /-- Its fields are `bases`, `keywords`, `body` and `decorator_list`. -/
  | class_def (name : String)
  /-- Its fields are `args`, `body`, `decorator_list` and `returns`. -/
  | function_def (is_async : Bool) (name : String)
  /-- Its fields start with `posonlyargs`, `args` and `vararg`. -/
  | arguments
  /-- Its fields are `targets` and `value`. -/
  | assign
  /-- Its fields are `target`, `annotation` and `value`. -/
  | ann_assign
  | other
  deriving DecidableEq, Repr

/-- A node; a few kinds have no line. -/
inductive Node where
  | node (line : Option ℕ) (kind : Kind) (fields : List (List Node))

namespace Node

def line : Node → Option ℕ
  | .node line _ _ => line

def kind : Node → Kind
  | .node _ kind _ => kind

def fields : Node → List (List Node)
  | .node _ _ fields => fields

/-- The nodes of the `i`-th field. -/
def field (n : Node) (i : ℕ) : List Node := n.fields.getD i []

/-- `ast.iter_child_nodes`. -/
def children (n : Node) : List Node := n.fields.flatten

mutual

def depth : Node → ℕ
  | .node _ _ fields => fields_depth fields + 1

def fields_depth : List (List Node) → ℕ
  | [] => 0
  | nodes :: fields => max (nodes_depth nodes) (fields_depth fields)

def nodes_depth : List Node → ℕ
  | [] => 0
  | n :: nodes => max n.depth (nodes_depth nodes)

end

end Node

/-- `ast.walk`: a level of nodes, then the level of their children. -/
def walk_levels : ℕ → List Node → List Node
  | 0, _ => []
  | fuel + 1, nodes =>
      if nodes.isEmpty then [] else nodes ++ walk_levels fuel (nodes.flatMap Node.children)

/-- The nodes of a tree. Every level but the last leads one deeper. -/
def walk (nodes : List Node) : List Node := walk_levels (Node.nodes_depth nodes) nodes

/-! ### The walk visits the tree -/

theorem depth_le_nodes {n : Node} {nodes : List Node} (h : n ∈ nodes) :
    n.depth ≤ Node.nodes_depth nodes := by
  induction nodes with
  | nil => exact absurd h List.not_mem_nil
  | cons m nodes ih =>
    rw [Node.nodes_depth]
    rcases List.mem_cons.mp h with rfl | h
    · exact le_max_left _ _
    · exact le_trans (ih h) (le_max_right _ _)

theorem depth_le_fields {nodes : List Node} {fields : List (List Node)} (h : nodes ∈ fields) :
    Node.nodes_depth nodes ≤ Node.fields_depth fields := by
  induction fields with
  | nil => exact absurd h List.not_mem_nil
  | cons first fields ih =>
    rw [Node.fields_depth]
    rcases List.mem_cons.mp h with rfl | h
    · exact le_max_left _ _
    · exact le_trans (ih h) (le_max_right _ _)

/-- A child lies deeper. -/
theorem depth_child {n child : Node} (h : child ∈ n.children) : child.depth < n.depth := by
  cases n with
  | node line kind fields =>
    obtain ⟨nodes, hnodes, hchild⟩ := List.mem_flatten.mp h
    have hle := depth_le_nodes hchild
    have hle' : Node.nodes_depth nodes ≤ Node.fields_depth fields := depth_le_fields hnodes
    rw [Node.depth]
    omega

/-- A node of a tree: one of the first nodes, or a child of a node. -/
inductive InTree (nodes : List Node) : Node → Prop where
  | first {n : Node} (h : n ∈ nodes) : InTree nodes n
  | child {n child : Node} (h : InTree nodes n) (hchild : child ∈ n.children) : InTree nodes child

/-- With levels enough, the children of what is visited are visited. -/
theorem child_mem_walk_levels {fuel : ℕ} {nodes : List Node}
    (hfuel : ∀ n ∈ nodes, n.depth ≤ fuel) {n child : Node} (h : n ∈ walk_levels fuel nodes)
    (hchild : child ∈ n.children) : child ∈ walk_levels fuel nodes := by
  induction fuel generalizing nodes with
  | zero => exact absurd h List.not_mem_nil
  | succ fuel ih =>
    rw [walk_levels] at h ⊢
    split at h
    · exact absurd h List.not_mem_nil
    rename_i hsome
    rw [if_neg hsome]
    have hlevel : ∀ m ∈ nodes.flatMap Node.children, m.depth ≤ fuel := by
      intro m hm
      obtain ⟨parent, hparent, hm⟩ := List.mem_flatMap.mp hm
      have hlt := depth_child hm
      have hle := hfuel parent hparent
      omega
    rcases List.mem_append.mp h with h | h
    · -- the child is in the next level
      have hmem : child ∈ nodes.flatMap Node.children := List.mem_flatMap.mpr ⟨n, h, hchild⟩
      have hpos : 0 < child.depth := by
        cases child with
        | node line kind fields => rw [Node.depth]; omega
      have hle := hlevel child hmem
      apply List.mem_append_right
      cases fuel with
      | zero => omega
      | succ fuel =>
        rw [walk_levels, if_neg (by simp [List.ne_nil_of_mem hmem])]
        exact List.mem_append_left _ hmem
    · exact List.mem_append_right _ (ih hlevel h)

theorem mem_walk_levels {fuel : ℕ} {first nodes : List Node} (hfirst : ∀ n ∈ nodes, InTree first n)
    {n : Node} (h : n ∈ walk_levels fuel nodes) : InTree first n := by
  induction fuel generalizing nodes with
  | zero => exact absurd h List.not_mem_nil
  | succ fuel ih =>
    rw [walk_levels] at h
    split at h
    · exact absurd h List.not_mem_nil
    rcases List.mem_append.mp h with h | h
    · exact hfirst n h
    · apply ih _ h
      intro m hm
      obtain ⟨parent, hparent, hm⟩ := List.mem_flatMap.mp hm
      exact .child (hfirst parent hparent) hm

/-- **The walk** visits the nodes of the tree and nothing else. -/
theorem mem_walk {nodes : List Node} {n : Node} : n ∈ walk nodes ↔ InTree nodes n := by
  constructor
  · exact mem_walk_levels (fun n hn => .first hn)
  · intro h
    have hfuel : ∀ n ∈ nodes, n.depth ≤ Node.nodes_depth nodes := fun n hn => depth_le_nodes hn
    induction h with
    | first h =>
      have hpos : 0 < Node.nodes_depth nodes := by
        have hle := depth_le_nodes h
        rename_i n
        cases n with
        | node line kind fields =>
          rw [Node.depth] at hle
          omega
      unfold walk
      obtain ⟨fuel, hfuel⟩ : ∃ fuel, Node.nodes_depth nodes = fuel + 1 :=
        ⟨Node.nodes_depth nodes - 1, by omega⟩
      rw [hfuel, walk_levels, if_neg (by simp [List.ne_nil_of_mem h])]
      exact List.mem_append_left _ h
    | child _ hchild ih => exact child_mem_walk_levels hfuel ih hchild

end PyTree
