import BacktestVisualizer.Framework.Storage

/-! # Modules of Classes

  The part of Python that a file of class definitions, assignments and
  imports uses. Statements run from top to bottom in a module or in the body
  of a class. A class statement runs its body in a namespace of its own and
  makes a class object, which its name then denotes, until something else is
  bound to it.

  What is imported, and the value of any expression that is neither a name nor
  an attribute, come from outside. The bases of a class stay as its statement
  gives them: `__bases__` is not assigned.
-/

namespace PyModule

/-! ### Syntax -/

inductive Expr where
  | name (id : String)
  | attr (value : Expr) (name : String)
  /-- Any other expression, with the expressions in it. It binds no name. -/
  | other (k : ℕ) (parts : List Expr)

inductive Target where
  | name (id : String)
  | attr (value : Expr) (name : String)

/-- An imported name and what it is imported as. -/
abbrev Alias := String × Option String

inductive Stmt where
  | class_stmt (name : String) (bases : List Expr) (body : List Stmt)
  | assign (targets : List Target) (value : Expr)
  | import_module (names : List Alias)
  | import_from (level : ℕ) (module : String) (names : List Alias)

/-- The head of a class statement. -/
structure ClassDef where
  name : String
  bases : List Expr

mutual

/-- The class statements in a statement, inner ones first. -/
def Stmt.class_defs : Stmt → List ClassDef
  | .class_stmt name bases body => block_class_defs body ++ [⟨name, bases⟩]
  | .assign _ _ => []
  | .import_module _ => []
  | .import_from _ _ _ => []

def block_class_defs : List Stmt → List ClassDef
  | [] => []
  | s :: body => s.class_defs ++ block_class_defs body

end

/-! ### Values -/

inductive Value where
  /-- The class object made by the file as its `i`-th. -/
  | object (i : ℕ)
  /-- Something from outside the file. -/
  | outside (e : ℕ)
  | text (s : String)
  deriving DecidableEq, Repr

/-- A dictionary of names. -/
abbrev Namespace := Keyed String Value

/-- What a class object has from the statement that made it, each base beside
    what it evaluated to. -/
structure ClassMade where
  statement : String
  bases : List (Expr × Value)
  /-- `__mro__`, but for the class itself. -/
  mro : List Value
  bases_in_mro : ∀ base ∈ bases, base.2 ∈ mro

def ClassMade.class_def (c : ClassMade) : ClassDef := ⟨c.statement, c.bases.map Prod.fst⟩

/-- A class object of the file. -/
structure ClassObject where
  made : ClassMade
  /-- `__name__`. -/
  name : String
  /-- `__dict__`. -/
  names : Namespace

/-- Where a statement runs: in the module, or in the body of a class with a
    namespace of its own. -/
structure Frame where
  globals : Namespace
  locals : Option Namespace
  classes : List ClassObject
  /-- Attributes the file has set on things from outside. -/
  patched : Keyed (ℕ × String) Value

/-- What is outside of the file. -/
structure Host where
  builtins : String → Option Value
  /-- `import name`. -/
  module : String → Option Value
  /-- `from module import name`. -/
  member : String → String → Option Value
  /-- `from module import *`. -/
  members : String → List (String × Value)
  /-- The class that a class without bases has for a base. -/
  object : ℕ
  /-- `e.__mro__`, empty for what is no class. -/
  mro : ℕ → List ℕ
  /-- `e.__dict__`. -/
  own : ℕ → String → Option Value
  getattr : ℕ → String → Option Value
  /-- Attributes that do not come from a `__dict__` of the file. -/
  type_attr : Value → String → Option Value
  /-- The value of the `k`-th other expression. -/
  other : ℕ → Frame → Option Value
  /-- `e.__name__`. -/
  name_of : ℕ → String

/-! ### Expressions -/

variable (host : Host)

/-- The attribute in the `__dict__` of one class. -/
def own_attr (f : Frame) : Value → String → Option Value
  | .object i, a => f.classes[i]?.bind (fun c => c.names.get a)
  | .outside e, a => (f.patched.get (e, a)).or (host.own e a)
  | .text _, _ => none

/-- `v.a`, through the classes of `v.__mro__`. -/
def getattr (f : Frame) (v : Value) (a : String) : Option Value :=
  match v with
  | .object i =>
      let classes := .object i :: (f.classes[i]?.map (fun c => c.made.mro)).getD []
      (classes.findSome? (fun c => own_attr host f c a)).or (host.type_attr v a)
  | .outside e => (f.patched.get (e, a)).or (host.getattr e a)
  | .text _ => host.type_attr v a

/-- The body of a class sees its own names, those of the module and the
    built-in ones, and not those of a class around it. -/
def eval (f : Frame) : Expr → Option Value
  | .name id => ((f.locals.bind (fun names => names.get id)).or (f.globals.get id)).or
      (host.builtins id)
  | .attr value a => (eval f value).bind (fun v => getattr host f v a)
  | .other k _ => host.other k f

/-! ### The order of bases -/

/-- The next class of a merge: the head of a list that is in no tail. -/
def next_class (ls : List (List Value)) : Option Value :=
  ls.findSome? (fun l => l.head?.filter (fun v => ls.all (fun m => v ∉ m.tail)))

/-- The C3 merge. Every round takes a class off a list. -/
def merge : ℕ → List (List Value) → Option (List Value)
  | 0, _ => none
  | fuel + 1, ls =>
      let ls := ls.filter (fun l => l ≠ [])
      if ls = [] then some []
      else
        match next_class ls with
        | none => none
        | some v =>
            (merge fuel (ls.map (fun l => if l.head? = some v then l.tail else l))).map (v :: ·)

/-- `v.__mro__`; only a class has one. -/
def mro_of (f : Frame) : Value → Option (List Value)
  | .object i => f.classes[i]?.map (fun c => .object i :: c.made.mro)
  | .outside e => if host.mro e = [] then none else some ((host.mro e).map .outside)
  | .text _ => none

/-- The order of a new class, without the class. -/
def linearize (f : Frame) (bases : List Value) : Option (List Value) :=
  let bases := if bases = [] then [.outside host.object] else bases
  (bases.mapM (mro_of host f)).bind (fun orders =>
    let ls := orders ++ [bases]
    merge ((ls.map List.length).sum + 1) ls)

theorem mem_merge {fuel : ℕ} {ls : List (List Value)} {order : List Value}
    (h : merge fuel ls = some order) {l : List Value} (hl : l ∈ ls) {v : Value} (hv : v ∈ l) :
    v ∈ order := by
  induction fuel generalizing ls order l with
  | zero => exact absurd h (by simp [merge])
  | succ fuel ih =>
    have hleft : l ∈ ls.filter (fun l => l ≠ []) := by
      rw [List.mem_filter, decide_eq_true_eq]
      exact ⟨hl, List.ne_nil_of_mem hv⟩
    unfold merge at h
    simp only at h
    split at h
    · rename_i hnil
      rw [hnil] at hleft
      exact absurd hleft List.not_mem_nil
    split at h
    · exact absurd h (by simp)
    · rename_i w _
      obtain ⟨rest, hrest, rfl⟩ := Option.map_eq_some_iff.mp h
      have hmap := List.mem_map_of_mem (f := fun l => if l.head? = some w then l.tail else l) hleft
      by_cases hhead : l.head? = some w
      · -- the list that lost its head
        obtain ⟨t, rfl⟩ : ∃ t, l = w :: t := by
          cases l with
          | nil => exact absurd hhead (by simp)
          | cons x t => exact ⟨t, by rw [Option.some.inj hhead]⟩
        rcases List.mem_cons.mp hv with rfl | hv
        · exact List.mem_cons_self
        · rw [if_pos hhead] at hmap
          exact List.mem_cons_of_mem _ (ih hrest hmap hv)
      · rw [if_neg hhead] at hmap
        exact List.mem_cons_of_mem _ (ih hrest hmap hv)

theorem mapM_mem {α β : Type} {g : α → Option β} {l : List α} {l' : List β}
    (h : l.mapM g = some l') {a : α} (ha : a ∈ l) : ∃ b, g a = some b := by
  induction l generalizing l' with
  | nil => exact absurd ha List.not_mem_nil
  | cons a' l ih =>
    rw [List.mapM_cons] at h
    obtain ⟨b, hb, h⟩ := Option.bind_eq_some_iff.mp h
    obtain ⟨bs, hbs, _⟩ := Option.bind_eq_some_iff.mp h
    rcases List.mem_cons.mp ha with rfl | ha
    · exact ⟨b, hb⟩
    · exact ih hbs ha

/-- The bases of a class are in its order, and they are classes. -/
theorem mem_linearize {f : Frame} {bases order : List Value}
    (h : linearize host f bases = some order) {v : Value} (hv : v ∈ bases) :
    v ∈ order ∧ ∃ mro, mro_of host f v = some mro := by
  unfold linearize at h
  simp only [if_neg (List.ne_nil_of_mem hv)] at h
  obtain ⟨orders, horders, h⟩ := Option.bind_eq_some_iff.mp h
  constructor
  · exact mem_merge h (List.mem_append_right _ List.mem_cons_self) hv
  · exact mapM_mem horders hv

/-! ### Statements -/

/-- Bind a name where the statement runs. -/
def bind_name (f : Frame) (id : String) (v : Value) : Frame :=
  match f.locals with
  | none => { f with globals := f.globals.insert id v }
  | some names => { f with locals := some (names.insert id v) }

/-- `c.a = v`. -/
def ClassObject.set_attr (c : ClassObject) (a : String) (v : Value) : Option ClassObject :=
  if a = "__name__" then
    -- a name is a string
    match v with
    | .text s => some { c with name := s }
    | _ => none
  else if a ∈ ["__bases__", "__mro__", "__dict__"] then none
  else some { c with names := c.names.insert a v }

def set_attr (f : Frame) (o : Value) (a : String) (v : Value) : Option Frame :=
  match o with
  | .object i =>
      f.classes[i]?.bind (fun c =>
        (c.set_attr a v).map (fun c => { f with classes := f.classes.set i c }))
  | .outside e => some { f with patched := f.patched.insert (e, a) v }
  | .text _ => none

def bind_target (v : Value) (f : Frame) : Target → Option Frame
  | .name id => some (bind_name f id v)
  | .attr value a => (eval host f value).bind (fun o => set_attr f o a v)

/-- `import a.b` binds `a`, and `import a.b as c` the module itself. -/
def import_one (f : Frame) (names : Alias) : Option Frame :=
  match names.2 with
  | some as_name => (host.module names.1).map (bind_name f as_name)
  | none =>
      let root := String.ofList (names.1.toList.takeWhile (· != '.'))
      (host.module root).map (bind_name f root)

def import_member (module : String) (f : Frame) (names : Alias) : Option Frame :=
  if names.1 = "*" then
    some ((host.members module).foldl (fun f member => bind_name f member.1 member.2) f)
  else (host.member module names.1).map (bind_name f (names.2.getD names.1))

/-- The namespace the body of a class starts with. -/
def class_namespace (f : Frame) : Namespace :=
  match f.globals.get "__name__" with
  | some v => (∅ : Namespace).insert "__module__" v
  | none => ∅

/-- The class object of a body that has run. -/
def make_class (name : String) (bases : List (Expr × Value)) (body : Frame) :
    Option ClassObject :=
  match h : linearize host body (bases.map Prod.snd) with
  | none => none
  | some mro => some
      { made :=
          { statement := name
            bases := bases
            mro := mro
            bases_in_mro := fun _ hb => (mem_linearize host h (List.mem_map_of_mem hb)).1 }
        name := name
        names := body.locals.getD ∅ }

mutual

/-- One statement; `none` is an exception. -/
def exec : Stmt → Frame → Option Frame
  | .class_stmt name bases body, f =>
      (bases.mapM (fun e => (eval host f e).map (fun v => (e, v)))).bind (fun bases =>
        (exec_block body { f with locals := some (class_namespace f) }).bind (fun inner =>
          (make_class host name bases inner).map (fun c =>
            bind_name { inner with locals := f.locals, classes := inner.classes ++ [c] } name
              (.object inner.classes.length))))
  | .assign targets value, f =>
      (eval host f value).bind (fun v => targets.foldlM (bind_target host v) f)
  | .import_module names, f => names.foldlM (import_one host) f
  | .import_from level module names, f =>
      -- a file on its own has no package to be relative to
      if level = 0 then names.foldlM (import_member host module) f else none

def exec_block : List Stmt → Frame → Option Frame
  | [], f => some f
  | s :: body, f => (exec s f).bind (exec_block body)

end

/-- The module as its file starts to run. -/
def start_module (module_name : String) : Frame where
  globals := (∅ : Namespace).insert "__name__" (.text module_name)
  locals := none
  classes := []
  patched := ∅

/-- Import a file under a name. -/
def import_file (module_name : String) (source : List Stmt) : Option Frame :=
  exec_block host source (start_module module_name)

/-! ### What a run makes -/

variable {host}

/-- What the classes so far were made with. -/
def Frame.made (f : Frame) : List ClassMade := f.classes.map ClassObject.made

/-- Every base of a class that is a class of the file was made before it. -/
def BasesBefore (made : List ClassMade) : Prop :=
  ∀ (i : ℕ) (c : ClassMade), made[i]? = some c → ∀ base ∈ c.bases, ∀ j,
    base.2 = .object j → j < i

/-- A run makes the classes of these statements, after those it found. -/
structure Makes (defs : List ClassDef) (f f' : Frame) : Prop where
  class_defs : f'.made.map ClassMade.class_def = f.made.map ClassMade.class_def ++ defs
  bases_before : BasesBefore f.made → BasesBefore f'.made

theorem Makes.of_made {f f' : Frame} (h : f'.made = f.made) : Makes [] f f' where
  class_defs := by rw [h, List.append_nil]
  bases_before := by rw [h]; exact id

theorem Makes.trans {defs defs' : List ClassDef} {f f₁ f' : Frame} (h : Makes defs f f₁)
    (h' : Makes defs' f₁ f') : Makes (defs ++ defs') f f' where
  class_defs := by rw [h'.class_defs, h.class_defs, List.append_assoc]
  bases_before := fun hf => h'.bases_before (h.bases_before hf)

@[simp] theorem made_bind_name (f : Frame) (id : String) (v : Value) :
    (bind_name f id v).made = f.made := by
  unfold bind_name
  split
  · rfl
  · rfl

/-- An attribute does not change what the class was made with. -/
theorem made_set_attr_class {c c' : ClassObject} {a : String} {v : Value}
    (h : c.set_attr a v = some c') : c'.made = c.made := by
  unfold ClassObject.set_attr at h
  split at h
  · split at h
    · rw [← Option.some.inj h]
    · exact absurd h (by simp)
  · split at h
    · exact absurd h (by simp)
    · rw [← Option.some.inj h]

theorem made_set_attr {f f' : Frame} {o : Value} {a : String} {v : Value}
    (h : set_attr f o a v = some f') : f'.made = f.made := by
  unfold set_attr at h
  cases o with
  | object i =>
    obtain ⟨c, hc, h⟩ := Option.bind_eq_some_iff.mp h
    obtain ⟨c', hc', rfl⟩ := Option.map_eq_some_iff.mp h
    obtain ⟨hi, rfl⟩ := List.getElem?_eq_some_iff.mp hc
    show (f.classes.set i c').map ClassObject.made = f.classes.map ClassObject.made
    rw [List.map_set, made_set_attr_class hc', ← List.getElem_map ClassObject.made,
      List.set_getElem_self]
    simpa using hi
  | outside e => rw [← Option.some.inj h]; rfl
  | text s => exact absurd h (by simp)

theorem made_bind_target {v : Value} {f f' : Frame} {t : Target}
    (h : bind_target host v f t = some f') : f'.made = f.made := by
  cases t with
  | name id =>
    rw [← Option.some.inj h]
    exact made_bind_name f id v
  | attr value a =>
    obtain ⟨o, _, h⟩ := Option.bind_eq_some_iff.mp h
    exact made_set_attr h

theorem made_import_one {f f' : Frame} {names : Alias}
    (h : import_one host f names = some f') : f'.made = f.made := by
  unfold import_one at h
  split at h
  · obtain ⟨v, _, rfl⟩ := Option.map_eq_some_iff.mp h
    exact made_bind_name f _ v
  · obtain ⟨v, _, rfl⟩ := Option.map_eq_some_iff.mp h
    exact made_bind_name f _ v

theorem made_import_member {module : String} {f f' : Frame} {names : Alias}
    (h : import_member host module f names = some f') : f'.made = f.made := by
  unfold import_member at h
  split at h
  · have hfold : ∀ (members : List (String × Value)) (f : Frame),
        (members.foldl (fun f member => bind_name f member.1 member.2) f).made = f.made := by
      intro members
      induction members with
      | nil => exact fun _ => rfl
      | cons member members ih =>
        intro f
        rw [List.foldl_cons, ih, made_bind_name]
    rw [← Option.some.inj h]
    exact hfold _ f
  · obtain ⟨v, _, rfl⟩ := Option.map_eq_some_iff.mp h
    exact made_bind_name f _ v

/-- A fallible loop over frames makes no class if no step does. -/
theorem made_foldlM {α : Type} {g : Frame → α → Option Frame}
    (hg : ∀ f a f', g f a = some f' → f'.made = f.made) {l : List α} {f f' : Frame}
    (h : l.foldlM g f = some f') : f'.made = f.made := by
  induction l generalizing f with
  | nil =>
    obtain rfl := Option.some.inj h
    rfl
  | cons a l ih =>
    rw [List.foldlM_cons] at h
    obtain ⟨f₁, hstep, hrest⟩ := Option.bind_eq_some_iff.mp h
    rw [ih hrest, hg f a f₁ hstep]

theorem mapM_fst {α β : Type} {g : α → Option β} {l : List α} {l' : List (α × β)}
    (h : l.mapM (fun a => (g a).map (fun b => (a, b))) = some l') : l'.map Prod.fst = l := by
  induction l generalizing l' with
  | nil =>
    obtain rfl := Option.some.inj h
    rfl
  | cons a l ih =>
    rw [List.mapM_cons] at h
    obtain ⟨p, hp, h⟩ := Option.bind_eq_some_iff.mp h
    obtain ⟨ps, hps, h⟩ := Option.bind_eq_some_iff.mp h
    obtain ⟨b, _, rfl⟩ := Option.map_eq_some_iff.mp hp
    obtain rfl := Option.some.inj h
    rw [List.map_cons, ih hps]

/-- A new class has the bases of its statement, and those are classes. -/
theorem make_class_made {name : String} {bases : List (Expr × Value)} {body : Frame}
    {c : ClassObject} (h : make_class host name bases body = some c) :
    c.made.class_def = ⟨name, bases.map Prod.fst⟩ ∧
      ∀ base ∈ c.made.bases, ∃ mro, mro_of host body base.2 = some mro := by
  unfold make_class at h
  split at h
  · exact absurd h (by simp)
  · rename_i mro hmro
    rw [← Option.some.inj h]
    exact ⟨rfl, fun base hb => (mem_linearize host hmro (List.mem_map_of_mem hb)).2⟩

/-- A class of the file that has an order is one of those made so far. -/
theorem object_lt_made {f : Frame} {j : ℕ} {mro : List Value}
    (h : mro_of host f (.object j) = some mro) : j < f.made.length := by
  obtain ⟨c, hc, _⟩ := Option.map_eq_some_iff.mp h
  obtain ⟨hj, _⟩ := List.getElem?_eq_some_iff.mp hc
  simpa [Frame.made] using hj

theorem BasesBefore.snoc {made : List ClassMade} {c : ClassMade} (h : BasesBefore made)
    (hc : ∀ base ∈ c.bases, ∀ j, base.2 = .object j → j < made.length) :
    BasesBefore (made ++ [c]) := by
  intro i d hd base hb j hj
  rcases Nat.lt_or_ge i made.length with hi | hi
  · rw [List.getElem?_append_left hi] at hd
    exact h i d hd base hb j hj
  · rw [List.getElem?_append_right hi] at hd
    obtain rfl := List.mem_singleton.mp (List.mem_of_getElem? hd)
    have hlt := hc base hb j hj
    omega

/-- The class statement itself, after its body. -/
theorem makes_class {name : String} {bases : List (Expr × Value)} {inner f' : Frame}
    {c : ClassObject} (hc : make_class host name bases inner = some c)
    (h : f'.made = inner.made ++ [c.made]) :
    Makes [⟨name, bases.map Prod.fst⟩] inner f' where
  class_defs := by rw [h, List.map_append, List.map_singleton, (make_class_made hc).1]
  bases_before := by
    intro hinner
    rw [h]
    apply hinner.snoc
    intro base hb j hj
    obtain ⟨mro, hmro⟩ := (make_class_made hc).2 base hb
    rw [hj] at hmro
    exact object_lt_made hmro

mutual

/-- **A statement** makes a class for each class statement in it. -/
theorem exec_makes : ∀ (s : Stmt) {f f' : Frame}, exec host s f = some f' →
    Makes s.class_defs f f'
  | .class_stmt name bases body, f, f', h => by
    unfold exec at h
    obtain ⟨bases', hbases, h⟩ := Option.bind_eq_some_iff.mp h
    obtain ⟨inner, hinner, h⟩ := Option.bind_eq_some_iff.mp h
    obtain ⟨c, hc, rfl⟩ := Option.map_eq_some_iff.mp h
    -- the body starts from the same classes, in a namespace of its own
    have hrun := exec_block_makes body hinner
    have hbody : Makes (block_class_defs body) f inner :=
      ⟨hrun.class_defs, hrun.bases_before⟩
    unfold Stmt.class_defs
    apply hbody.trans
    rw [← mapM_fst hbases]
    apply makes_class hc
    rw [made_bind_name]
    simp [Frame.made]
  | .assign targets value, f, f', h => by
    unfold exec at h
    obtain ⟨v, _, h⟩ := Option.bind_eq_some_iff.mp h
    unfold Stmt.class_defs
    exact Makes.of_made (made_foldlM (fun _ _ _ => made_bind_target) h)
  | .import_module names, f, f', h => by
    unfold exec at h
    unfold Stmt.class_defs
    exact Makes.of_made (made_foldlM (fun _ _ _ => made_import_one) h)
  | .import_from level module names, f, f', h => by
    unfold exec at h
    unfold Stmt.class_defs
    split at h
    · exact Makes.of_made (made_foldlM (fun _ _ _ => made_import_member) h)
    · exact absurd h (by simp)

theorem exec_block_makes : ∀ (body : List Stmt) {f f' : Frame},
    exec_block host body f = some f' → Makes (block_class_defs body) f f'
  | [], f, f', h => by
    obtain rfl := Option.some.inj h
    exact Makes.of_made rfl
  | s :: body, f, f', h => by
    unfold exec_block at h
    obtain ⟨f₁, hs, hbody⟩ := Option.bind_eq_some_iff.mp h
    unfold block_class_defs
    exact (exec_makes s hs).trans (exec_block_makes body hbody)

end

/-- **An import** makes a class for each class statement of the file. -/
theorem import_file_class_defs {module_name : String} {source : List Stmt} {m : Frame}
    (h : import_file host module_name source = some m) :
    m.made.map ClassMade.class_def = block_class_defs source :=
  (exec_block_makes source h).class_defs

/-- The bases of every class of a module were made before it. -/
theorem import_file_bases_before {module_name : String} {source : List Stmt} {m : Frame}
    (h : import_file host module_name source = some m) : BasesBefore m.made := by
  apply (exec_block_makes source h).bases_before
  intro i c hc
  exact absurd hc (by simp [start_module, Frame.made])

/-! ### Walking the tree -/

/-- A node of the syntax tree. -/
inductive Node where
  | stmt (s : Stmt)
  | expr (e : Expr)

def Target.expr : Target → Expr
  | Target.name id => Expr.name id
  | Target.attr value a => Expr.attr value a

/-- `ast.iter_child_nodes`. -/
def Node.children : Node → List Node
  | .stmt (.class_stmt _ bases body) => bases.map .expr ++ body.map .stmt
  | .stmt (.assign targets value) => targets.map (fun t => .expr t.expr) ++ [.expr value]
  | .stmt (.import_module _) => []
  | .stmt (.import_from _ _ _) => []
  | .expr (.name _) => []
  | .expr (.attr value _) => [.expr value]
  | .expr (.other _ parts) => parts.map .expr

/-- `ast.walk`: a level of nodes, then the level of their children. -/
def walk : ℕ → List Node → List Node
  | 0, _ => []
  | fuel + 1, nodes =>
      if nodes.isEmpty then [] else nodes ++ walk fuel (nodes.flatMap Node.children)

mutual

def Expr.depth : Expr → ℕ
  | .name _ => 0
  | .attr value _ => value.depth + 1
  | .other _ parts => exprs_depth parts + 1

def exprs_depth : List Expr → ℕ
  | [] => 0
  | e :: exprs => max e.depth (exprs_depth exprs)

end

mutual

def Stmt.depth : Stmt → ℕ
  | .class_stmt _ bases body => max (exprs_depth bases) (block_depth body) + 1
  | .assign targets value => max (exprs_depth (targets.map Target.expr)) value.depth + 1
  | .import_module _ => 0
  | .import_from _ _ _ => 0

def block_depth : List Stmt → ℕ
  | [] => 0
  | s :: body => max s.depth (block_depth body)

end

def Node.depth : Node → ℕ
  | .stmt s => s.depth
  | .expr e => e.depth

/-- The nodes of a file. -/
def walk_file (source : List Stmt) : List Node :=
  walk (block_depth source + 1) (source.map .stmt)

theorem depth_le_exprs {e : Expr} {exprs : List Expr} (h : e ∈ exprs) :
    e.depth ≤ exprs_depth exprs := by
  induction exprs with
  | nil => exact absurd h List.not_mem_nil
  | cons e' exprs ih =>
    unfold exprs_depth
    rcases List.mem_cons.mp h with rfl | h
    · exact le_max_left _ _
    · exact le_trans (ih h) (le_max_right _ _)

theorem depth_le_block {s : Stmt} {body : List Stmt} (h : s ∈ body) :
    s.depth ≤ block_depth body := by
  induction body with
  | nil => exact absurd h List.not_mem_nil
  | cons s' body ih =>
    unfold block_depth
    rcases List.mem_cons.mp h with rfl | h
    · exact le_max_left _ _
    · exact le_trans (ih h) (le_max_right _ _)

/-- A child lies deeper. -/
theorem depth_child {n child : Node} (h : child ∈ n.children) : child.depth < n.depth := by
  match n with
  | .stmt (.class_stmt name bases body) =>
    rw [Node.children, List.mem_append] at h
    rcases h with h | h
    · obtain ⟨e, he, rfl⟩ := List.mem_map.mp h
      have hle := depth_le_exprs he
      simp only [Node.depth, Stmt.depth]
      omega
    · obtain ⟨s, hs, rfl⟩ := List.mem_map.mp h
      have hle := depth_le_block hs
      simp only [Node.depth, Stmt.depth]
      omega
  | .stmt (.assign targets value) =>
    rw [Node.children, List.mem_append] at h
    rcases h with h | h
    · obtain ⟨t, ht, rfl⟩ := List.mem_map.mp h
      have hle := depth_le_exprs (List.mem_map_of_mem (f := Target.expr) ht)
      simp only [Node.depth, Stmt.depth]
      omega
    · obtain rfl := List.mem_singleton.mp h
      simp only [Node.depth, Stmt.depth]
      omega
  | .stmt (.import_module names) => exact absurd h List.not_mem_nil
  | .stmt (.import_from level module names) => exact absurd h List.not_mem_nil
  | .expr (.name id) => exact absurd h List.not_mem_nil
  | .expr (.attr value name) =>
    obtain rfl := List.mem_singleton.mp h
    simp only [Node.depth, Expr.depth]
    omega
  | .expr (.other k parts) =>
    obtain ⟨e, he, rfl⟩ := List.mem_map.mp h
    have hle := depth_le_exprs he
    simp only [Node.depth, Expr.depth]
    omega

/-- The class statement at a node. -/
def Node.class_def : Node → Option ClassDef
  | .stmt (.class_stmt name bases _) => some ⟨name, bases⟩
  | _ => none

theorem mem_block_class_defs {d : ClassDef} {body : List Stmt} :
    d ∈ block_class_defs body ↔ ∃ s ∈ body, d ∈ s.class_defs := by
  induction body with
  | nil => simp [block_class_defs]
  | cons s body ih => simp [block_class_defs, ih]

/-- **The walk** finds every class statement, however deep. -/
theorem class_def_mem_walk {fuel : ℕ} {nodes : List Node} (hfuel : ∀ n ∈ nodes, n.depth < fuel)
    {s : Stmt} (hs : .stmt s ∈ nodes) {d : ClassDef} (hd : d ∈ s.class_defs) :
    d ∈ (walk fuel nodes).filterMap Node.class_def := by
  induction fuel generalizing nodes s with
  | zero => exact absurd (hfuel _ hs) (by omega)
  | succ fuel ih =>
    have hsome : nodes.isEmpty = false := by
      cases nodes with
      | nil => exact absurd hs List.not_mem_nil
      | cons n nodes => rfl
    unfold walk
    rw [hsome, if_neg (by simp), List.filterMap_append, List.mem_append]
    cases s with
    | class_stmt name bases body =>
      rw [Stmt.class_defs, List.mem_append] at hd
      rcases hd with hd | hd
      · obtain ⟨s', hs', hd⟩ := mem_block_class_defs.mp hd
        apply Or.inr
        apply ih _ _ hd
        · intro child hchild
          obtain ⟨n, hn, hchild⟩ := List.mem_flatMap.mp hchild
          have hdeeper := depth_child hchild
          have hlt := hfuel n hn
          omega
        · apply List.mem_flatMap.mpr
          refine ⟨_, hs, ?_⟩
          exact List.mem_append_right _ (List.mem_map_of_mem hs')
      · obtain rfl := List.mem_singleton.mp hd
        exact Or.inl (List.mem_filterMap.mpr ⟨_, hs, rfl⟩)
    | assign targets value => exact absurd hd (by simp [Stmt.class_defs])
    | import_module names => exact absurd hd (by simp [Stmt.class_defs])
    | import_from level module names => exact absurd hd (by simp [Stmt.class_defs])

theorem class_def_mem_walk_file {source : List Stmt} {d : ClassDef}
    (h : d ∈ block_class_defs source) : d ∈ (walk_file source).filterMap Node.class_def := by
  obtain ⟨s, hs, hd⟩ := mem_block_class_defs.mp h
  apply class_def_mem_walk _ (List.mem_map_of_mem hs) hd
  intro n hn
  obtain ⟨s', hs', rfl⟩ := List.mem_map.mp hn
  have hle := depth_le_block hs'
  simp only [Node.depth]
  omega

end PyModule
