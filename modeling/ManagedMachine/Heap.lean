import ManagedMachine.Host.Data

/-!
The object heap. Objects are only ever added, at the next free position, and a reference is the
position of its object, so references never dangle and equal references mean one object.
-/

set_option autoImplicit false
set_option relaxedAutoImplicit false

namespace ManagedMachine

/-- An object of the managed heap. -/
inductive HeapObject where
  /-- An instance of an interpreted type, boxed structs included. It is `adapted` when the host
  keeps a wrapper around it. -/
  | instance_ (type : TypeId) (fields : Array Value) (adapted : Bool)
  | array (type : TypeId) (items : Array Value)
  | native (type : TypeId) (data : HostData)
  deriving Inhabited

namespace HeapObject

def type : HeapObject → TypeId
  | .instance_ type _ _ => type
  | .array type _ => type
  | .native type _ => type

def data? : HeapObject → Option HostData
  | .native _ data => some data
  | _ => none

/-- The values an object refers to. -/
def contents : HeapObject → List Value
  | .instance_ _ fields _ => fields.toList
  | .array _ items => items.toList
  | .native _ (.record values) => values
  | .native .. => []

end HeapObject

/-- The objects of a domain; an identity is a place in the array. -/
structure Heap where
  objects : Array HeapObject
  deriving Inhabited

namespace Heap

def empty : Heap := ⟨#[]⟩

def size (h : Heap) : Nat := h.objects.size

def object (h : Heap) (id : ObjectId) : HeapObject := h.objects.getD id.index default

def type (h : Heap) (id : ObjectId) : TypeId := (h.object id).type

def data? (h : Heap) (id : ObjectId) : Option HostData := (h.object id).data?

/-- The text that an exception object carries. -/
def message? (h : Heap) (id : ObjectId) : Option String := (h.data? id).bind HostData.message?

/-- Adds an object, under an identity that no object had before. -/
def allocate (h : Heap) (o : HeapObject) : ObjectId × Heap :=
  (⟨h.objects.size⟩, ⟨h.objects.push o⟩)

def put (h : Heap) (id : ObjectId) (o : HeapObject) : Heap :=
  ⟨h.objects.setIfInBounds id.index o⟩

theorem object_allocate_self (h : Heap) (o : HeapObject) :
    (h.allocate o).2.object (h.allocate o).1 = o := by
  simp [allocate, object]

theorem object_allocate_of_lt (h : Heap) (o : HeapObject) {id : ObjectId}
    (hid : id.index < h.size) :
    (h.allocate o).2.object id = h.object id := by
  have := Nat.ne_of_lt hid
  simp only [size] at this
  simp [allocate, object, Array.getElem?_push, this]

theorem object_put_self (h : Heap) (o : HeapObject) {id : ObjectId} (hid : id.index < h.size) :
    (h.put id o).object id = o := by
  simp only [size] at hid
  simp [put, object, hid]

theorem object_put_of_ne (h : Heap) (o : HeapObject) {id other : ObjectId} (hne : other ≠ id) :
    (h.put id o).object other = h.object other := by
  have : id.index ≠ other.index := fun e => hne (by cases id; cases other; simp_all)
  simp [put, object, this]

/-! ### Reachability -/

/-- The objects that an object refers to. -/
def references (h : Heap) (id : ObjectId) : List ObjectId :=
  (h.object id).contents.filterMap Value.object?

/-- Every object that the objects in `pending` lead to. `seen` holds those found already, and every
step takes one object or one repetition off; `fuel` bounds the steps. -/
def reach (h : Heap) : (fuel : Nat) → (pending seen : List ObjectId) → List ObjectId
  | 0, _, seen => seen
  | _ + 1, [], seen => seen
  | fuel + 1, id :: rest, seen =>
    if seen.contains id then h.reach fuel rest seen
    else h.reach fuel (h.references id ++ rest) (id :: seen)

/-- As many steps as there are references in the heap and in `roots`. -/
def reachable (h : Heap) (roots : List ObjectId) : List ObjectId :=
  let edges := h.objects.foldl (fun n o => n + o.contents.length) 0
  h.reach (roots.length + edges + 1) roots []

/-- Does the object lead back to itself? -/
def onCycle (h : Heap) (id : ObjectId) : Bool := (h.reachable (h.references id)).contains id

/-- An object is kept as long as a root or a cycle of objects leads to it. -/
def isKept (h : Heap) (roots : List ObjectId) (id : ObjectId) : Bool :=
  let all := (List.range h.size).map ObjectId.mk
  (h.reachable (roots ++ all.filter h.onCycle)).contains id

end Heap

end ManagedMachine
