import Mathlib
import McpeLauncher.FindOrCreate

/-! # Class lookup of libjnivm

`InternalFindClass` makes a class when its name is first looked up. With `JNI_DEBUG` the lookup goes
down a tree of namespaces and nested classes; without it, and for names of arrays, classes stand in
a map. -/
namespace Jnivm
open FindOrCreate List Function

/-- The vectors of children: `Namespace::namespaces`, `Namespace::classes` and
`Class::classes`. -/
inductive Children where
  | namespaces | classes | nested
  deriving DecidableEq

/-- What an object of the tree is, and the `nativeprefix` of a class. -/
inductive Kind where
  | ofNamespace
  | ofClass (nativePrefix : List Char)
  deriving DecidableEq

abbrev ClassHeap := Heap (List Char) Children Kind

structure ClassTable where
  /-- All namespaces and classes; `np` is at 0. -/
  heap : ClassHeap
  /-- `vm->classes`. -/
  classes : List Char → Option Nat

def ClassTable.empty : ClassTable where
  heap := { size := 1, node := fun _ => ⟨"jnivm".toList, .ofNamespace, fun _ => []⟩ }
  classes := fun _ => none

variable {c : Char} {field : Children} {name rest : List Char}

theorem length_rest_lt {p : Char → Bool} (h : name.dropWhile p = c :: rest) :
    rest.length < name.length := by
  have hle := (dropWhile_suffix p (l := name)).length_le
  rw [h, length_cons] at hle
  omega

/-- The loop over the namespaces of a name.  `done` is the text from `prefix` to `name`. -/
def namespaceLoop (heap : ClassHeap) (cur : Nat) (done name : List Char) :
    ClassHeap × Nat × List Char × List Char :=
  match _hpos : name.dropWhile (· ≠ '/') with
  | [] => (heap, cur, done, name)
  | _ :: rest =>
    let sname := name.takeWhile (· ≠ '/')
    let next := heap.findOrCreate cur .namespaces sname .ofNamespace
    namespaceLoop next.2 next.1 (done ++ sname ++ ['/']) rest
termination_by name.length
decreasing_by exact length_rest_lt _hpos

/-- The class `sname` in the class `curc`, or in the namespace `cur` if there is none. -/
def findClassIn (heap : ClassHeap) (cur : Nat) (curc : Option Nat) (done sname : List Char) :
    Nat × ClassHeap :=
  match curc with
  | some curc => heap.findOrCreate curc .nested sname (.ofClass (done ++ sname))
  | none => heap.findOrCreate cur .classes sname (.ofClass (done ++ sname))

def classLoop (heap : ClassHeap) (cur : Nat) (curc : Option Nat) (done name : List Char) :
    Nat × ClassHeap :=
  let sname := name.takeWhile (· ≠ '$')
  let next := findClassIn heap cur curc done sname
  match _hpos : name.dropWhile (· ≠ '$') with
  | [] => next
  | _ :: rest => classLoop next.2 cur (some next.1) (done ++ sname ++ ['$']) rest
termination_by name.length
decreasing_by exact length_rest_lt _hpos

def lastSegment (name : List Char) : List Char := (name.reverse.takeWhile (· ≠ '/')).reverse

def findFlat (vm : ClassTable) (name : List Char) : Nat × ClassTable :=
  match vm.classes name with
  | some curc => (curc, vm)
  | none =>
    (vm.heap.size,
      { heap := vm.heap.alloc (lastSegment name) (.ofClass name)
        classes := Function.update vm.classes name (some vm.heap.size) })

/-- `InternalFindClass`, with or without `JNI_DEBUG`. -/
def internalFindClass (jniDebug : Bool) (vm : ClassTable) (name : List Char) : Nat × ClassTable :=
  if jniDebug ∧ name.head? ≠ some '[' then
    let (heap, cur, done, name) := namespaceLoop vm.heap 0 [] name
    let (curc, heap) := classLoop heap cur none done name
    (curc, { vm with heap := heap })
  else findFlat vm name

def findClasses (jniDebug : Bool) (vm : ClassTable) : List (List Char) → List Nat × ClassTable
  | [] => ([], vm)
  | name :: names =>
    let (curc, vm) := internalFindClass jniDebug vm name
    let (found, vm) := findClasses jniDebug vm names
    (curc :: found, vm)

/-- The text of a name up to an object, from the text of its parent. -/
def joinName (text : List Char) : Children → List Char → List Char
  | .namespaces, name => text ++ name ++ ['/']
  | .classes, name => text ++ name
  | .nested, name => text ++ '$' :: name

def newKind : Children → List Char → Kind
  | .namespaces, _ => .ofNamespace
  | .classes, text => .ofClass text
  | .nested, text => .ofClass text

/-- The classes in the last part of a name. -/
def classPath (field : Children) (name : List Char) : List (Children × List Char) :=
  match _hpos : name.dropWhile (· ≠ '$') with
  | [] => [(field, name)]
  | _ :: rest => (field, name.takeWhile (· ≠ '$')) :: classPath .nested rest
termination_by name.length
decreasing_by exact length_rest_lt _hpos

def namePath (name : List Char) : List (Children × List Char) :=
  match _hpos : name.dropWhile (· ≠ '/') with
  | [] => classPath .classes name
  | _ :: rest => (.namespaces, name.takeWhile (· ≠ '/')) :: namePath rest
termination_by name.length
decreasing_by exact length_rest_lt _hpos

theorem takeWhile_append_rest {sep : Char} (h : name.dropWhile (· ≠ sep) = c :: rest) :
    name.takeWhile (· ≠ sep) ++ sep :: rest = name := by
  have hc : c = sep := by
    have := head?_dropWhile_not (fun c => decide (c ≠ sep)) name
    rw [h] at this
    simpa using this
  rw [← hc, ← h, hc]
  exact takeWhile_append_dropWhile

theorem takeWhile_of_no_rest {sep : Char} (h : name.dropWhile (· ≠ sep) = []) :
    name.takeWhile (· ≠ sep) = name := by
  have := takeWhile_append_dropWhile (p := fun c => decide (c ≠ sep)) (l := name)
  rwa [h, append_nil] at this

abbrev joinAll (text : List Char) (path : List (Children × List Char)) : List Char :=
  path.foldl (fun t step => joinName t step.1 step.2) text

theorem classPath_last (h : name.dropWhile (· ≠ '$') = []) (field : Children) :
    classPath field name = [(field, name)] := by
  rw [classPath]
  split
  · rfl
  · next hpos => rw [h] at hpos; contradiction

theorem classPath_more (h : name.dropWhile (· ≠ '$') = c :: rest) (field : Children) :
    classPath field name = (field, name.takeWhile (· ≠ '$')) :: classPath .nested rest := by
  rw [classPath]
  split
  · next hpos => rw [h] at hpos; contradiction
  · next hpos =>
    obtain ⟨_, rfl⟩ := cons.inj (h.symm.trans hpos)
    rfl

theorem joinAll_classPath (text : List Char) (hfield : field ≠ .namespaces) (name : List Char) :
    joinAll text (classPath field name) = joinName text field name := by
  fun_induction classPath field name generalizing text with
  | case1 field name hpos => rfl
  | case2 field name c rest hpos ih =>
    show joinAll (joinName text field _) (classPath .nested rest) = _
    rw [ih _ (by decide)]
    have hname := takeWhile_append_rest hpos
    cases field with
    | namespaces => contradiction
    | classes =>
      show text ++ name.takeWhile _ ++ '$' :: rest = text ++ name
      rw [append_assoc, hname]
    | nested =>
      show text ++ '$' :: name.takeWhile _ ++ '$' :: rest = text ++ '$' :: name
      rw [append_assoc, cons_append, hname]

theorem namePath_last (h : name.dropWhile (· ≠ '/') = []) :
    namePath name = classPath .classes name := by
  rw [namePath]
  split
  · rfl
  · next hpos => rw [h] at hpos; contradiction

theorem namePath_more (h : name.dropWhile (· ≠ '/') = c :: rest) :
    namePath name = (.namespaces, name.takeWhile (· ≠ '/')) :: namePath rest := by
  rw [namePath]
  split
  · next hpos => rw [h] at hpos; contradiction
  · next hpos =>
    obtain ⟨_, rfl⟩ := cons.inj (h.symm.trans hpos)
    rfl

theorem joinAll_namePath (text name : List Char) : joinAll text (namePath name) = text ++ name := by
  fun_induction namePath name generalizing text with
  | case1 name hpos => exact joinAll_classPath text (by decide) name
  | case2 name c rest hpos ih =>
    show joinAll (text ++ name.takeWhile _ ++ ['/']) (namePath rest) = _
    rw [ih, append_assoc, append_assoc, singleton_append, takeWhile_append_rest hpos]

theorem classPath_eq_append (hfield : field ≠ .namespaces) (name : List Char) :
    ∃ path last sname, classPath field name = path ++ [(last, sname)] ∧ last ≠ .namespaces := by
  fun_induction classPath field name with
  | case1 field name hpos => exact ⟨[], field, name, rfl, hfield⟩
  | case2 field name c rest hpos ih =>
    obtain ⟨path, last, sname, hpath, hlast⟩ := ih (by decide)
    exact ⟨_ :: path, last, sname, congrArg (_ :: ·) hpath, hlast⟩

theorem namePath_eq_append (name : List Char) :
    ∃ path last sname, namePath name = path ++ [(last, sname)] ∧ last ≠ .namespaces := by
  fun_induction namePath name with
  | case1 name hpos => exact classPath_eq_append (by decide) name
  | case2 name c rest hpos ih =>
    obtain ⟨path, last, sname, hpath, hlast⟩ := ih
    exact ⟨_ :: path, last, sname, congrArg (_ :: ·) hpath, hlast⟩

theorem findClassIn_nested (heap : ClassHeap) (cur curc : Nat) (text sname : List Char) :
    findClassIn heap cur (some curc) (text ++ ['$']) sname =
      heap.findOrCreate curc .nested sname (newKind .nested (joinName text .nested sname)) := by
  rw [findClassIn, append_assoc]
  rfl

theorem classLoop_enter (heap : ClassHeap) {cur parent : Nat} {curc : Option Nat}
    {done text : List Char}
    (hfind : ∀ (heap : ClassHeap) sname, findClassIn heap cur curc done sname =
      heap.findOrCreate parent field sname (newKind field (joinName text field sname)))
    (hdone : ∀ sname, done ++ sname = joinName text field sname) (name : List Char) :
    classLoop heap cur curc done name =
      heap.enter joinName newKind text parent (classPath field name) := by
  fun_induction classLoop heap cur curc done name generalizing field parent text with
  | case1 heap curc done name sname =>
    next hpos =>
    rw [classPath_last hpos]
    show findClassIn heap cur curc done (name.takeWhile _) = _
    rw [takeWhile_of_no_rest hpos, hfind]
    rfl
  | case2 heap curc done name sname found c rest =>
    next hpos ih =>
    rw [classPath_more hpos, ih (findClassIn_nested · cur _ (done ++ sname)) fun _ =>
      append_assoc (done ++ sname) ..]
    simp only [found, sname, hfind, hdone]
    rfl

theorem namespaceLoop_classLoop (heap : ClassHeap) (cur : Nat) (done name : List Char) :
    (let (heap, cur, done, name) := namespaceLoop heap cur done name
     classLoop heap cur none done name) =
      heap.enter joinName newKind done cur (namePath name) := by
  fun_induction namespaceLoop heap cur done name with
  | case1 heap cur done name hpos =>
    rw [namePath_last hpos]
    exact classLoop_enter heap (fun _ _ => rfl) (fun _ => rfl) name
  | case2 heap cur done name c rest hpos sname next ih =>
    rw [namePath_more hpos]
    exact ih

abbrev InTree (jniDebug : Bool) (name : List Char) : Prop := jniDebug ∧ name.head? ≠ some '['

theorem internalFindClass_tree {jniDebug : Bool} (h : InTree jniDebug name) (vm : ClassTable) :
    internalFindClass jniDebug vm name =
      ((vm.heap.enter joinName newKind [] 0 (namePath name)).1,
        { vm with heap := (vm.heap.enter joinName newKind [] 0 (namePath name)).2 }) := by
  rw [internalFindClass, if_pos h, ← namespaceLoop_classLoop]

/-- The class at an address is the one that was made for the name. -/
structure ClassTable.Valid (vm : ClassTable) : Prop where
  closed : vm.heap.Closed
  root : 0 < vm.heap.size
  labelled : ∃ text, Labelled joinName newKind vm.heap text ∧ text 0 = []
  flat : ∀ name a, vm.classes name = some a →
    a < vm.heap.size ∧ (vm.heap.node a).data = .ofClass name

structure ClassTable.Extends (vm vm' : ClassTable) : Prop where
  heap : vm.heap.Extends vm'.heap
  classes : ∀ name a, vm.classes name = some a → vm'.classes name = some a

theorem ClassTable.Extends.trans {vm vm' vm'' : ClassTable} (h₁ : vm.Extends vm')
    (h₂ : vm'.Extends vm'') : vm.Extends vm'' where
  heap := h₁.heap.trans h₂.heap
  classes := fun name a h => h₂.classes name a (h₁.classes name a h)

def ClassTable.address (jniDebug : Bool) (vm : ClassTable) (name : List Char) : Option Nat :=
  if InTree jniDebug name then vm.heap.walk 0 (namePath name) else vm.classes name

variable {jniDebug : Bool} {vm vm' : ClassTable} {name : List Char} {a : Nat}

theorem ClassTable.Extends.address (he : vm.Extends vm') (hv : vm.Valid)
    (h : vm.address jniDebug name = some a) : vm'.address jniDebug name = some a := by
  unfold ClassTable.address at h ⊢
  split at h
  · next hin =>
    rw [if_pos hin]
    exact Heap.walk_extends hv.closed he.heap hv.root h
  · next hin =>
    rw [if_neg hin]
    exact he.classes name a h

theorem ClassTable.Valid.data_address (hv : vm.Valid) (h : vm.address jniDebug name = some a) :
    (vm.heap.node a).data = .ofClass name := by
  unfold ClassTable.address at h
  split at h
  · obtain ⟨text, hl, hroot⟩ := hv.labelled
    obtain ⟨path, last, sname, hpath, hlast⟩ := namePath_eq_append name
    have htext : text a = name := by
      rw [hl.walk_text hv.closed hv.root h, hroot]
      exact joinAll_namePath [] name
    rw [hpath] at h
    rw [hl.walk_data hv.closed hv.root h, htext]
    cases last with
    | namespaces => contradiction
    | classes => rfl
    | nested => rfl
  · exact (hv.flat name a h).2

/-- What every lookup does. -/
structure Found (jniDebug : Bool) (vm : ClassTable) (name : List Char) (r : Nat × ClassTable) :
    Prop where
  valid : r.2.Valid
  extended : vm.Extends r.2
  address : r.2.address jniDebug name = some r.1

theorem internalFindClass_tree_found (hin : InTree jniDebug name) (hv : vm.Valid) :
    Found jniDebug vm name (internalFindClass jniDebug vm name) := by
  obtain ⟨text, hl, hroot⟩ := hv.labelled
  have hlooked := enter_spec hl hv.closed hv.root (namePath name)
  rw [hroot] at hlooked
  obtain ⟨text', hl', hagree⟩ := hlooked.labelled
  rw [internalFindClass_tree hin]
  refine ⟨⟨hlooked.closed, ?_, ⟨text', hl', ?_⟩, ?_⟩, ⟨hlooked.extended, fun _ _ h => h⟩, ?_⟩
  · exact hv.root.trans_le hlooked.extended.size_le
  · rw [hagree 0 hv.root, hroot]
  · intro flat b hb
    obtain ⟨hlt, hdata⟩ := hv.flat flat b hb
    refine ⟨hlt.trans_le hlooked.extended.size_le, ?_⟩
    exact (hlooked.extended.data_eq b hlt).trans hdata
  · rw [ClassTable.address, if_pos hin]
    exact hlooked.walk

theorem findFlat_found (hin : ¬ InTree jniDebug name) (hv : vm.Valid) :
    Found jniDebug vm name (findFlat vm name) := by
  unfold findFlat
  split
  · next curc hknown =>
    refine ⟨hv, ⟨.refl _, fun _ _ h => h⟩, ?_⟩
    rw [ClassTable.address, if_neg hin, hknown]
  · next hnew =>
    have hother : ∀ other b, vm.classes other = some b →
        update vm.classes name (some vm.heap.size) other = some b := by
      intro other b hb
      have hne : other ≠ name := by
        rintro rfl
        rw [hnew] at hb
        contradiction
      rw [update_of_ne hne, hb]
    obtain ⟨text, hl, hroot⟩ := hv.labelled
    refine ⟨⟨hv.closed.alloc, Nat.succ_pos _, ⟨text, hl.alloc hv.closed, hroot⟩, ?_⟩,
      ⟨Heap.alloc_extends, hother⟩, ?_⟩
    · intro other b hb
      simp only [update_apply] at hb
      split at hb
      · next hname =>
        obtain rfl := Option.some.inj hb
        rw [hname]
        exact ⟨Nat.lt_succ_self _, congrArg Node.data (Heap.alloc_node_new _ _ _)⟩
      · obtain ⟨hlt, hdata⟩ := hv.flat other b hb
        exact ⟨Nat.lt_succ_of_lt hlt, (Heap.alloc_extends.data_eq b hlt).trans hdata⟩
    · rw [ClassTable.address, if_neg hin]
      exact update_self _ _ _

theorem internalFindClass_found (jniDebug : Bool) (name : List Char) (hv : vm.Valid) :
    Found jniDebug vm name (internalFindClass jniDebug vm name) := by
  by_cases hin : InTree jniDebug name
  · exact internalFindClass_tree_found hin hv
  · rw [internalFindClass, if_neg hin]
    exact findFlat_found hin hv

theorem ClassTable.empty_valid : ClassTable.empty.Valid where
  closed := by
    intro a _ field b hb
    contradiction
  root := Nat.one_pos
  labelled := by
    refine ⟨fun _ => [], ?_, rfl⟩
    intro a _ field b hb
    contradiction
  flat := by
    intro name a h
    contradiction

theorem findClasses_found (jniDebug : Bool) (names : List (List Char)) (hv : vm.Valid) :
    (findClasses jniDebug vm names).2.Valid ∧ vm.Extends (findClasses jniDebug vm names).2 ∧
      List.Forall₂ (fun name a =>
        (findClasses jniDebug vm names).2.address jniDebug name = some a)
        names (findClasses jniDebug vm names).1 := by
  induction names generalizing vm with
  | nil => exact ⟨hv, ⟨.refl _, fun _ _ h => h⟩, .nil⟩
  | cons name names ih =>
    have hfound := internalFindClass_found jniDebug name hv
    obtain ⟨hvalid, hext, hrest⟩ := ih hfound.valid
    exact ⟨hvalid, hfound.extended.trans hext,
      .cons (hext.address hfound.valid hfound.address) hrest⟩

def ClassTable.nativePrefix (vm : ClassTable) (a : Nat) : Option (List Char) :=
  match (vm.heap.node a).data with
  | .ofClass nativePrefix => some nativePrefix
  | .ofNamespace => none

theorem getElem?_of_forall₂ {α β : Type} {f : α → Option β} {l : List α} {m : List β}
    (h : List.Forall₂ (fun x y => f x = some y) l m) (i : Nat) : m[i]? = l[i]?.bind f := by
  induction h generalizing i with
  | nil => rfl
  | cons hxy _ ih =>
    cases i with
    | zero => exact hxy.symm
    | succ i => exact ih i

theorem findClasses_nativePrefix (jniDebug : Bool) (names : List (List Char)) :
    List.Forall₂ (fun name a => (findClasses jniDebug .empty names).2.nativePrefix a = some name)
      names (findClasses jniDebug .empty names).1 := by
  obtain ⟨hv, _, hall⟩ := findClasses_found jniDebug names ClassTable.empty_valid
  refine hall.imp fun name a h => ?_
  rw [ClassTable.nativePrefix, hv.data_address h]

theorem findClasses_getElem?_iff (jniDebug : Bool) (names : List (List Char)) (i j : Nat) :
    (findClasses jniDebug .empty names).1[i]? = (findClasses jniDebug .empty names).1[j]? ↔
      names[i]? = names[j]? := by
  obtain ⟨_, _, hall⟩ := findClasses_found jniDebug names ClassTable.empty_valid
  have hname := getElem?_of_forall₂ (findClasses_nativePrefix jniDebug names).flip
  constructor
  · intro h
    rw [hname i, hname j, h]
  · intro h
    rw [getElem?_of_forall₂ hall i, getElem?_of_forall₂ hall j, h]

/-- **Classes are found by their full names**, in both builds. -/
theorem internalFindClass_iff (names : List (List Char)) :
    (∀ jniDebug, List.Forall₂
      (fun name a => (findClasses jniDebug .empty names).2.nativePrefix a = some name)
      names (findClasses jniDebug .empty names).1) ∧
    (∀ jniDebug, ∀ i j : Nat, (findClasses jniDebug .empty names).1[i]? =
      (findClasses jniDebug .empty names).1[j]? ↔ names[i]? = names[j]?) ∧
    (∀ i j : Nat, (findClasses true .empty names).1[i]? = (findClasses true .empty names).1[j]? ↔
      (findClasses false .empty names).1[i]? = (findClasses false .empty names).1[j]?) := by
  refine ⟨fun jniDebug => findClasses_nativePrefix jniDebug names,
    fun jniDebug i j => findClasses_getElem?_iff jniDebug names i j, fun i j => ?_⟩
  rw [findClasses_getElem?_iff, findClasses_getElem?_iff]

end Jnivm
