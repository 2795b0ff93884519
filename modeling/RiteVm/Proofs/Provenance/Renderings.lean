import RiteVm.Machine.Raise
import RiteVm.Proofs.Arguments.CallSites
import RiteVm.Proofs.Parameters.Scopes
import RiteVm.Proofs.Provenance.Names
import RiteVm.Proofs.Provenance.Runs

/-!
Contract: every value with live objects has one rendering, and that is what readers get.

Owns:
- renderings as trees, and the text of a tree;
- trees that show a value, with a placeholder for a container wherever one may stand;
- trees with placeholders in the right places: for a container exactly inside of itself;
- that such a tree exists, is the only one, and has the text that the machine computes.

On the way inward a container is entered once. Ranges are no containers, and are no containers'
only way to come back: what a range is built on has a lower rank.
-/

namespace RiteVm

/-! ### Trees -/

/-- What a text for readers consists of. -/
inductive Rendering where
  /-- words without parts -/
  | words (text : String)
  /-- two renderings with something between them: the ends of a range, the key and value of an
  entry, or the name and value of a variable -/
  | joined (first : Rendering) (link : String) (second : Rendering)
  /-- an array, hash or plain object with what it stores -/
  | container (handle : Handle) (opening : String) (parts : List Rendering) (closing : String)
  /-- what stands for a container inside of its own rendering -/
  | placeholder (handle : Handle) (text : String)
deriving Inhabited

namespace Rendering

/-- The text of a tree. -/
def text : Rendering → String
  | words text => text
  | joined first link second => first.text ++ link ++ second.text
  | container _ opening parts closing => opening ++ ", ".intercalate (parts.map text) ++ closing
  | placeholder _ text => text

/-- The placeholders of a tree are inside of the container that they stand for, and no container
is inside of itself. -/
inductive Exact : List Handle → Rendering → Prop where
  | words {around : List Handle} (text : String) : Exact around (.words text)
  | joined {around : List Handle} {first second : Rendering} (link : String) :
      Exact around first → Exact around second → Exact around (.joined first link second)
  | container {around : List Handle} {handle : Handle} {parts : List Rendering} (opening closing : String) :
      handle ∉ around → (∀ part ∈ parts, Exact (handle :: around) part) →
      Exact around (.container handle opening parts closing)
  | placeholder {around : List Handle} {handle : Handle} (text : String) :
      handle ∈ around → Exact around (.placeholder handle text)

end Rendering

/-- Objects that are shown with what they store. -/
def Content.isContainer : Content → Bool
  | .array _ | .hash _ | .plain | .env _ | .exit _ => true
  | _ => false

/-- Objects that are shown with their variables. -/
def Content.isOpen : Content → Bool
  | .plain | .env _ | .exit _ => true
  | _ => false

/-- A tree shows a value. For a container that may be its placeholder. -/
inductive Machine.Shows (machine : Machine) : Value → Rendering → Prop where
  | nil : Shows machine .nil (.words "nil")
  | true : Shows machine .true (.words "true")
  | false : Shows machine .false (.words "false")
  | int (number : Int64) : Shows machine (.int number) (.words (toString number.toInt))
  | float (number : Float) : Shows machine (.float number) (.words (Text.floatText number))
  | symbol (symbol : Symbol) : Shows machine (.symbol symbol) (.words (":" ++ machine.symbols.text symbol))
  | string {handle : Handle} {object : Object} {bytes : Bytes} :
      machine.heap.get? handle = some object → object.content = .string bytes →
      Shows machine (.object handle) (.words (Text.quoted (Text.lossy bytes)))
  | array {handle : Handle} {object : Object} {items : Array Value} (shown : Value → Rendering) :
      machine.heap.get? handle = some object → object.content = .array items →
      (∀ item ∈ items.toList, Shows machine item (shown item)) →
      Shows machine (.object handle) (.container handle "[" (items.toList.map shown) "]")
  | hash {handle : Handle} {object : Object} {table : OrderedHash} (shown : Value → Rendering) :
      machine.heap.get? handle = some object → object.content = .hash table →
      (∀ pair ∈ table.pairs, Shows machine pair.1 (shown pair.1)) →
      (∀ pair ∈ table.pairs, Shows machine pair.2 (shown pair.2)) →
      Shows machine (.object handle)
        (.container handle "\x7b" (table.pairs.map fun pair => .joined (shown pair.1) " => " (shown pair.2)) "\x7d")
  | range {handle : Handle} {object : Object} {record : RangeRecord} {first last : Rendering} :
      machine.heap.get? handle = some object → object.content = .range record →
      Shows machine record.first first → Shows machine record.last last →
      Shows machine (.object handle) (.joined first (if record.exclusive then "..." else "..") last)
  | classOrModule {handle : Handle} {object : Object} {record : ClassRecord} {name : String} :
      machine.heap.get? handle = some object → object.content = .classOrModule record →
      Query.className handle machine = .ok name → Shows machine (.object handle) (.words name)
  | proc {handle : Handle} {object : Object} {record : ProcRecord} :
      machine.heap.get? handle = some object → object.content = .proc record →
      Shows machine (.object handle)
        (.words ("#<Proc:" ++ Query.identityText handle ++ (if record.strict then " (lambda)" else "") ++ ">"))
  | fiber {handle : Handle} {object : Object} {record : FiberRecord} :
      machine.heap.get? handle = some object → object.content = .fiber record →
      Shows machine (.object handle)
        (.words ("#<Fiber:" ++ Query.identityText handle ++ " (" ++ record.state.text ++ ")>"))
  | exception {handle : Handle} {object : Object} {record : ExceptionRecord} {nominal : String}
      {message? : Option String} :
      machine.heap.get? handle = some object → object.content = .exception record →
      Query.nominalName (.object handle) machine = .ok nominal → Query.text? record.message machine = .ok message? →
      Shows machine (.object handle) (.words ("#<" ++ nominal ++ ": " ++ message?.getD nominal ++ ">"))
  | data {handle : Handle} {object : Object} {record : DataRecord} {nominal : String} :
      machine.heap.get? handle = some object → object.content = .data record →
      Query.nominalName (.object handle) machine = .ok nominal →
      Shows machine (.object handle) (.words ("#<" ++ nominal ++ ":" ++ record.typeName ++ ">"))
  | fields {handle : Handle} {object : Object} {nominal : String} (shown : Value → Rendering) :
      machine.heap.get? handle = some object → object.content.isOpen →
      Query.nominalName (.object handle) machine = .ok nominal →
      (∀ field ∈ object.fields.entries, Shows machine field.2 (shown field.2)) →
      Shows machine (.object handle)
        (.container handle ("#<" ++ nominal ++ if object.fields.entries.isEmpty then "" else " ")
          (object.fields.entries.map fun field => .joined (.words (machine.symbols.text field.1)) "=" (shown field.2))
          ">")
  | placeholder {handle : Handle} {object : Object} :
      machine.heap.get? handle = some object → object.content.isContainer →
      Shows machine (.object handle)
        (.placeholder handle (if object.hash?.isSome then "\x7b...\x7d" else "[...]"))

/-! ### Containers around a value -/

/-- The containers around a value are different objects. -/
structure Machine.Surrounds (machine : Machine) (around : List Handle) : Prop where
  nodup : around.Nodup
  containers : ∀ handle ∈ around, ∃ object, machine.heap.get? handle = some object ∧ object.content.isContainer

section Enclosing

variable {machine : Machine} {around : List Handle} {handle : Handle} {object : Object} {rank : Handle → Nat}

theorem Machine.surrounds_nil : machine.Surrounds [] := ⟨List.nodup_nil, nofun⟩

theorem Machine.Surrounds.cons (surrounds : machine.Surrounds around) (isNew : handle ∉ around)
    (found : machine.heap.get? handle = some object) (isContainer : object.content.isContainer) :
    machine.Surrounds (handle :: around) := by
  refine ⟨List.nodup_cons.mpr ⟨isNew, surrounds.nodup⟩, fun other member => ?_⟩
  rcases List.mem_cons.mp member with rfl | isAround
  · exact ⟨object, found, isContainer⟩
  · exact surrounds.containers other isAround

theorem Machine.Surrounds.length_le (surrounds : machine.Surrounds around) :
    around.length ≤ machine.heap.cells.size := by
  refine Heap.length_le_size surrounds.nodup fun handle member => ?_
  obtain ⟨object, found, -⟩ := surrounds.containers handle member
  exact ⟨object, found⟩

/-- How deep the rendering of a value can nest inside the containers around it. -/
def Machine.nesting (machine : Machine) (rank : Handle → Nat) (around : List Handle) : Value → Nat
  | .object handle =>
      (machine.heap.cells.size - around.length) * (machine.heap.cells.size + 1) + rank handle + 1
  | _ => 0

/-- Inside of one more container, a rendering nests less deep. -/
theorem Machine.Surrounds.nesting_cons (surrounds : machine.Surrounds (handle :: around))
    (ranked : machine.heap.Ranked rank machine.heap.cells.size) {value : Value} (live : value.IsLive machine) :
    machine.nesting rank (handle :: around) value < machine.nesting rank around (.object handle) := by
  have bounded := surrounds.length_le
  cases value with
  | object other =>
      obtain ⟨target, isTarget, -⟩ := live.exists_object
      have below := ranked.below other target isTarget
      rw [List.length_cons] at bounded
      obtain ⟨left, isLeft⟩ := Nat.exists_eq_add_of_le' bounded
      have shorter : machine.heap.cells.size - around.length = left + 1 := by omega
      have inside : machine.heap.cells.size - (around.length + 1) = left := by omega
      rw [nesting, nesting, List.length_cons, shorter, inside, Nat.succ_mul]
      omega
  | _ => exact Nat.succ_pos _

end Enclosing

/-! ### The rendering of a value -/

namespace Query

variable {machine : Machine} {around : List Handle} {fuel : Nat} {value : Value} {rank : Handle → Nat}

/-- A tree shows a value in the right way, and its text is computed. -/
structure Renders (machine : Machine) (fuel : Nat) (around : List Handle) (value : Value) (rendering : Rendering) :
    Prop where
  shows : machine.Shows value rendering
  placed : rendering.Exact around
  computed : inspectWithin fuel around value machine = .ok rendering.text

/-- A value that is no object is shown by words. -/
theorem exists_renders_of_immediate (isImmediate : ∀ handle, value ≠ .object handle) :
    ∃ rendering, Renders machine fuel around value rendering := by
  cases value with
  | nil => exact ⟨_, .nil, .words _, by rw [inspectWithin, Rendering.text]; rfl⟩
  | true => exact ⟨_, .true, .words _, by rw [inspectWithin, Rendering.text]; rfl⟩
  | false => exact ⟨_, .false, .words _, by rw [inspectWithin, Rendering.text]; rfl⟩
  | int number => exact ⟨_, .int number, .words _, by rw [inspectWithin, Rendering.text]; rfl⟩
  | float number => exact ⟨_, .float number, .words _, by rw [inspectWithin, Rendering.text]; rfl⟩
  | symbol symbol => exact ⟨_, .symbol symbol, .words _, by rw [inspectWithin, Rendering.text]; rfl⟩
  | object handle => exact absurd rfl (isImmediate handle)

/-- The texts of values that are rendered. -/
theorem mapM_inspectWithin {values : List Value} {shown : Value → Rendering}
    (renders : ∀ value ∈ values, Renders machine fuel around value (shown value)) :
    values.mapM (inspectWithin fuel around) machine = .ok ((values.map shown).map Rendering.text) := by
  rw [List.map_map]
  exact mapM_eq_ok fun value member => (renders value member).computed

/-- The texts of entries whose keys and values are rendered. -/
theorem mapM_pairs {pairs : List (Value × Value)} {shown : Value → Rendering}
    (keys : ∀ pair ∈ pairs, Renders machine fuel around pair.1 (shown pair.1))
    (values : ∀ pair ∈ pairs, Renders machine fuel around pair.2 (shown pair.2)) :
    (pairs.mapM fun (key, value) => do
      return s!"{← inspectWithin fuel around key} => {← inspectWithin fuel around value}" : Query _) machine =
      .ok ((pairs.map fun pair => Rendering.joined (shown pair.1) " => " (shown pair.2)).map Rendering.text) := by
  rw [List.map_map]
  refine mapM_eq_ok fun pair member => ?_
  have readKey := (keys pair member).computed
  have readValue := (values pair member).computed
  obtain ⟨key, value⟩ := pair
  dsimp only
  rw [bind_of_ok readKey, bind_of_ok readValue, Function.comp_apply, Rendering.text]
  rfl

/-- The texts of variables whose values are rendered. -/
theorem mapM_fields {fields : List (Symbol × Value)} {shown : Value → Rendering}
    (renders : ∀ field ∈ fields, Renders machine fuel around field.2 (shown field.2)) :
    (fields.mapM fun (name, value) => do
      return s!"{← symbolText name}={← inspectWithin fuel around value}" : Query _) machine =
      .ok ((fields.map fun field =>
        Rendering.joined (.words (machine.symbols.text field.1)) "=" (shown field.2)).map Rendering.text) := by
  rw [List.map_map]
  refine mapM_eq_ok fun field member => ?_
  have readValue := (renders field member).computed
  obtain ⟨name, value⟩ := field
  have readName : symbolText name machine = .ok (machine.symbols.text name) := rfl
  dsimp only
  rw [bind_of_ok readName, bind_of_ok readValue, Function.comp_apply, Rendering.text, Rendering.text]
  rfl

/-- A gap separates the name of a class from the variables if there are some. -/
theorem opening_append {α : Type} (nominal : String) (fields : List α) (part : α → Rendering) :
    "#<" ++ nominal ++ (if ((fields.map part).map Rendering.text).isEmpty then "" else
        " " ++ ", ".intercalate ((fields.map part).map Rendering.text)) ++ ">" =
      ("#<" ++ nominal ++ if fields.isEmpty then "" else " ") ++
        ", ".intercalate ((fields.map part).map Rendering.text) ++ ">" := by
  cases fields with
  | nil => simp
  | cons first rest => simp [String.append_assoc]

variable {handle : Handle} {object : Object}

/-- A container is not entered again. -/
theorem renders_placeholder (found : machine.heap.get? handle = some object) (isContainer : object.content.isContainer)
    (isInside : handle ∈ around) :
    Renders machine (fuel + 1) around (.object handle)
      (.placeholder handle (if object.hash?.isSome then "\x7b...\x7d" else "[...]")) where
  shows := .placeholder found isContainer
  placed := .placeholder _ isInside
  computed := by
    rw [inspectWithin, bind_of_ok (object_of_found found), if_pos (List.contains_iff_mem.mpr isInside),
      Rendering.text]
    rfl

/-- Whether a live value is a string can be told. -/
theorem exists_text? (live : value.IsLive machine) : ∃ result, text? value machine = .ok result := by
  have isKnown : ∃ bytes?, string? value machine = .ok bytes? := by
    cases value with
    | object handle =>
        obtain ⟨object, found, -⟩ := live.exists_object
        exact ⟨_, part?_of_found found _⟩
    | _ => exact ⟨none, rfl⟩
  obtain ⟨bytes?, isBytes⟩ := isKnown
  exact ⟨_, by rw [text?, bind_of_ok isBytes]; rfl⟩

/-- An object that is entered, by what it stores. -/
theorem exists_renders_of_content (founded : machine.heap.Founded) (hierarchical : machine.Hierarchical)
    (live : (Value.object handle).IsLive machine) (found : machine.heap.get? handle = some object)
    (isNew : handle ∉ around)
    (inside : object.content.isContainer → ∀ value, value.IsLive machine →
      ∃ rendering, Renders machine fuel (handle :: around) value rendering)
    (beside : ∀ record, object.content = .range record →
      (∃ rendering, Renders machine fuel around record.first rendering) ∧
        ∃ rendering, Renders machine fuel around record.last rendering) :
    ∃ rendering, Renders machine (fuel + 1) around (.object handle) rendering := by
  obtain ⟨nominal, named⟩ := exists_nominalName founded hierarchical live
  obtain ⟨classHandle, isClass, isNamed⟩ := bind_eq_ok_iff.mp named
  have isOutside : ¬ around.contains handle := fun contains => isNew (List.contains_iff_mem.mp contains)
  suffices computed : ∃ rendering, machine.Shows (.object handle) rendering ∧ rendering.Exact around ∧
      inspectWithin (fuel + 1) around (.object handle) machine = .ok rendering.text by
    obtain ⟨rendering, shows, placed, computed⟩ := computed
    exact ⟨rendering, shows, placed, computed⟩
  rw [inspectWithin, bind_of_ok (object_of_found found), if_neg isOutside, bind_of_ok isClass, bind_of_ok isNamed]
  cases isContent : object.content with
  | string bytes => exact ⟨_, .string found isContent, .words _, by rw [Rendering.text]; rfl⟩
  | array items =>
      have isLive (item : Value) (member : item ∈ items.toList) : item.IsLive machine :=
        live.of_content found isContent (by simp) fun node => .item (Array.mem_toList_iff.mp member)
      rw [isContent] at inside
      choose! shown renders using inside rfl
      have all (item : Value) (member : item ∈ items.toList) := renders item (isLive item member)
      refine ⟨_, .array shown found isContent fun item member => (all item member).shows,
        .container _ _ isNew fun part member => ?_, ?_⟩
      · obtain ⟨item, isItem, rfl⟩ := List.mem_map.mp member
        exact (all item isItem).placed
      · dsimp only
        rw [bind_of_ok (mapM_inspectWithin all), Rendering.text]
        rfl
  | hash table =>
      have stored {pair : Value × Value} (member : pair ∈ table.pairs) :
          pair.1.IsLive machine ∧ pair.2.IsLive machine := by
        obtain ⟨entry, isEntry, rfl⟩ := List.mem_map.mp member
        have isSlot : some entry ∈ table.slots := by simpa [OrderedHash.entries] using isEntry
        exact ⟨live.of_content found isContent (by simp) fun node => .key isSlot,
          live.of_content found isContent (by simp) fun node => .value isSlot⟩
      rw [isContent] at inside
      choose! shown renders using inside rfl
      have keys (pair : Value × Value) (member : pair ∈ table.pairs) := renders pair.1 (stored member).1
      have values (pair : Value × Value) (member : pair ∈ table.pairs) := renders pair.2 (stored member).2
      refine ⟨_, .hash shown found isContent (fun pair member => (keys pair member).shows)
        (fun pair member => (values pair member).shows), .container _ _ isNew fun part member => ?_, ?_⟩
      · obtain ⟨pair, isPair, rfl⟩ := List.mem_map.mp member
        exact .joined _ (keys pair isPair).placed (values pair isPair).placed
      · dsimp only
        rw [bind_of_ok (mapM_pairs keys values), Rendering.text]
        rfl
  | range record =>
      obtain ⟨⟨first, isFirst⟩, last, isLast⟩ := beside record isContent
      refine ⟨_, .range found isContent isFirst.shows isLast.shows, .joined _ isFirst.placed isLast.placed, ?_⟩
      dsimp only
      rw [bind_of_ok isFirst.computed, bind_of_ok isLast.computed, Rendering.text]
      rfl
  | classOrModule record =>
      have known : machine.class? handle = some record := by
        rw [Machine.class?, found, Option.bind_some, Object.class?, isContent]
      obtain ⟨name, isName⟩ := exists_className founded hierarchical live known
      exact ⟨_, .classOrModule found isContent isName, .words _, by rw [Rendering.text]; exact isName⟩
  | proc record => exact ⟨_, .proc found isContent, .words _, by rw [Rendering.text]; rfl⟩
  | fiber record => exact ⟨_, .fiber found isContent, .words _, by rw [Rendering.text]; rfl⟩
  | exception record =>
      have isLive : record.message.IsLive machine := live.of_content found isContent (by simp) fun node => .message
      obtain ⟨message?, isMessage⟩ := exists_text? isLive
      refine ⟨_, .exception found isContent named isMessage, .words _, ?_⟩
      dsimp only
      rw [bind_of_ok isMessage, Rendering.text]
      rfl
  | data record => exact ⟨_, .data found isContent named, .words _, by rw [Rendering.text]; rfl⟩
  | plain | env _ | exit _ =>
      have isOpen : object.content.isOpen := by rw [isContent]; rfl
      have isContainer : object.content.isContainer := by rw [isContent]; rfl
      have isLive (field : Symbol × Value) (member : field ∈ object.fields.entries) : field.2.IsLive machine :=
        live.of_field found member
      choose! shown renders using inside isContainer
      have all (field : Symbol × Value) (member : field ∈ object.fields.entries) :=
        renders field.2 (isLive field member)
      refine ⟨_, .fields shown found isOpen named fun field member => (all field member).shows,
        .container _ _ isNew fun part member => ?_, ?_⟩
      · obtain ⟨field, isField, rfl⟩ := List.mem_map.mp member
        exact .joined _ (.words _) (all field isField).placed
      · dsimp only
        rw [bind_of_ok (mapM_fields all), Rendering.text, ← opening_append]
        rfl

/-- A live value has a rendering inside of containers, if the fuel suffices for how deep it nests. -/
theorem exists_renders {rank : Handle → Nat} (founded : machine.heap.Founded) (hierarchical : machine.Hierarchical)
    (ranked : machine.heap.Ranked rank machine.heap.cells.size) (surrounds : machine.Surrounds around)
    (live : value.IsLive machine) (enough : machine.nesting rank around value ≤ fuel) :
    ∃ rendering, Renders machine fuel around value rendering := by
  induction fuel generalizing around value with
  | zero =>
      refine exists_renders_of_immediate ?_
      rintro handle rfl
      exact absurd enough (Nat.not_succ_le_zero _)
  | succ fuel inductionHypothesis =>
      by_cases isImmediate : ∀ handle, value ≠ .object handle
      case pos => exact exists_renders_of_immediate isImmediate
      obtain ⟨handle, rfl⟩ : ∃ handle, value = .object handle := by simpa using isImmediate
      obtain ⟨object, found, -⟩ := live.exists_object
      by_cases isInside : handle ∈ around
      · obtain ⟨_, isFound, isContainer⟩ := surrounds.containers handle isInside
        exact ⟨_, renders_placeholder isFound isContainer isInside⟩
      refine exists_renders_of_content founded hierarchical live found isInside
        (fun isContainer value isLive => ?_) fun record isRange => ?_
      · -- one container more is around
        have surroundsToo := surrounds.cons isInside found isContainer
        have less := surroundsToo.nesting_cons ranked isLive
        exact inductionHypothesis surroundsToo isLive (by omega)
      · -- the ends of a range have lower ranks
        have below {last : Value} (isLive : last.IsLive machine)
            (anchors : ∀ target, last = .object target → object.content.Anchors target) :
            machine.nesting rank around last < machine.nesting rank around (.object handle) := by
          cases last with
          | object target =>
              obtain ⟨other, isTarget, -⟩ := isLive.exists_object
              have lower := ranked.anchors handle object target found (anchors target rfl)
                (Option.isSome_of_eq_some isTarget)
              rw [Machine.nesting, Machine.nesting]
              omega
          | _ => exact Nat.succ_pos _
        have firstLive : record.first.IsLive machine := live.of_content found isRange (by simp) fun node => .rangeFirst
        have lastLive : record.last.IsLive machine := live.of_content found isRange (by simp) fun node => .rangeLast
        have firstBelow := below firstLive fun target isTarget => isRange ▸ .first isTarget
        have lastBelow := below lastLive fun target isTarget => isRange ▸ .last isTarget
        exact ⟨inductionHypothesis surrounds firstLive (by omega), inductionHypothesis surrounds lastLive (by omega)⟩

/-- The ranks of a founded heap are below its size, so fuel for its size suffices. -/
theorem exists_renders_of_live (founded : machine.heap.Founded) (hierarchical : machine.Hierarchical)
    (live : value.IsLive machine)
    (enough : machine.heap.cells.size * (machine.heap.cells.size + 2) ≤ fuel) :
    ∃ rendering, Renders machine fuel [] value rendering := by
  obtain ⟨rank, ranked⟩ := founded.exists_rank
  refine exists_renders founded hierarchical ranked Machine.surrounds_nil live ?_
  cases value with
  | object handle =>
      obtain ⟨object, found, -⟩ := live.exists_object
      have below := ranked.below handle object found
      rw [Nat.mul_succ] at enough
      rw [Machine.nesting, List.length_nil, Nat.sub_zero]
      omega
  | _ => exact Nat.zero_le fuel

/-- A live value can be shown. -/
theorem exists_inspect (founded : machine.heap.Founded) (hierarchical : machine.Hierarchical)
    (live : value.IsLive machine) : ∃ text, inspect value machine = .ok text := by
  have bounded : heapBound machine = .ok (machine.heap.cells.size + 1) := rfl
  obtain ⟨rendering, isShown⟩ := exists_renders_of_live founded hierarchical live
    (Nat.mul_le_mul_right _ (Nat.le_add_right machine.heap.cells.size 2))
  exact ⟨rendering.text, by rw [inspect, bind_of_ok bounded, isShown.computed]⟩

end Query

/-- A value is shown in the right way by one tree at most. -/
theorem Machine.Shows.unique {machine : Machine} {value : Value} {rendering other : Rendering} {around : List Handle}
    (shows : machine.Shows value rendering) (placed : rendering.Exact around) (showsOther : machine.Shows value other)
    (placedOther : other.Exact around) : other = rendering := by
  induction shows generalizing other around with
  | array shown found isArray _ inductionHypothesis =>
      cases placed with
      | container _ _ isNew parts =>
          cases showsOther with
          | array shownToo foundToo isArrayToo showsToo =>
              obtain rfl := Option.some.inj (found.symm.trans foundToo)
              obtain rfl := Content.array.inj (isArray.symm.trans isArrayToo)
              cases placedOther with
              | container _ _ _ partsToo =>
                  congr 1
                  refine List.map_congr_left fun item member => ?_
                  exact inductionHypothesis item member (parts _ (List.mem_map_of_mem member)) (showsToo item member)
                    (partsToo _ (List.mem_map_of_mem member))
          | placeholder =>
              cases placedOther with
              | placeholder _ isInside => exact absurd isInside isNew
          | _ => grind [Content.isOpen]
  | hash shown found isHash _ _ sameKeys sameValues =>
      cases placed with
      | container _ _ isNew parts =>
          cases showsOther with
          | hash shownToo foundToo isHashToo keysToo valuesToo =>
              obtain rfl := Option.some.inj (found.symm.trans foundToo)
              obtain rfl := Content.hash.inj (isHash.symm.trans isHashToo)
              cases placedOther with
              | container _ _ _ partsToo =>
                  congr 1
                  refine List.map_congr_left fun pair member => ?_
                  cases parts _ (List.mem_map_of_mem member) with
                  | joined _ key value =>
                      cases partsToo _ (List.mem_map_of_mem member) with
                      | joined _ keyToo valueToo =>
                          rw [sameKeys pair member key (keysToo pair member) keyToo,
                            sameValues pair member value (valuesToo pair member) valueToo]
          | placeholder =>
              cases placedOther with
              | placeholder _ isInside => exact absurd isInside isNew
          | _ => grind [Content.isOpen]
  | range found isRange _ _ sameFirst sameLast =>
      cases placed with
      | joined _ first last =>
          cases showsOther with
          | range foundToo isRangeToo firstToo lastToo =>
              obtain rfl := Option.some.inj (found.symm.trans foundToo)
              obtain rfl := Content.range.inj (isRange.symm.trans isRangeToo)
              cases placedOther with
              | joined _ isFirst isLast => rw [sameFirst first firstToo isFirst, sameLast last lastToo isLast]
          | _ => grind [Content.isOpen, Content.isContainer]
  | fields shown found isOpen named _ inductionHypothesis =>
      cases placed with
      | container _ _ isNew parts =>
          cases showsOther with
          | fields shownToo foundToo isOpenToo namedToo showsToo =>
              obtain rfl := Option.some.inj (found.symm.trans foundToo)
              obtain rfl := Except.ok.inj (named.symm.trans namedToo)
              cases placedOther with
              | container _ _ _ partsToo =>
                  congr 1
                  refine List.map_congr_left fun field member => ?_
                  cases parts _ (List.mem_map_of_mem member) with
                  | joined _ _ value =>
                      cases partsToo _ (List.mem_map_of_mem member) with
                      | joined _ _ valueToo =>
                          rw [inductionHypothesis field member value (showsToo field member) valueToo]
          | placeholder =>
              cases placedOther with
              | placeholder _ isInside => exact absurd isInside isNew
          | _ => grind [Content.isOpen]
  | placeholder found isContainer =>
      cases placed with
      | placeholder _ isInside =>
          cases showsOther with
          | placeholder => grind
          | array | hash | fields =>
              cases placedOther with
              | container _ _ isNew => exact absurd isInside isNew
          | _ => grind [Content.isContainer]
  | _ => cases showsOther <;> grind [Content.isOpen, Content.isContainer]

namespace Machine

variable {config : Config} {captures : Nat → Set Handle} {hosts : Array HostMethod} {place : Place} {machine : Machine}
  {value : Value}

/-- In every machine that a host attains, a value with live objects has one tree that shows it with the
placeholders in the right places. Its text is computed with any fuel that is enough, and the machine
stays as it is. -/
theorem Attained.inspect_renders (keep : HostsKeepWithin captures hosts)
    (attained : Attained config captures hosts place machine) (live : value.IsLive machine) :
    ∃ rendering, machine.Shows value rendering ∧ rendering.Exact [] ∧
      (∀ other, machine.Shows value other → other.Exact [] → other = rendering) ∧
      (∀ fuel, machine.heap.cells.size * (machine.heap.cells.size + 2) ≤ fuel →
        Query.inspectWithin fuel [] value machine = .ok rendering.text) ∧
      (liftM (Query.inspect value) : VM String) machine = .ok rendering.text machine := by
  obtain ⟨told, sound, -⟩ := attained.toldAt keep
  have renders (fuel : Nat) (enough : machine.heap.cells.size * (machine.heap.cells.size + 2) ≤ fuel) :
      ∃ rendering, Query.Renders machine fuel [] value rendering :=
    Query.exists_renders_of_live told.founded sound.coherent.hierarchical live enough
  obtain ⟨rendering, isShown⟩ := renders _ (Nat.le_refl _)
  have unique (other : Rendering) (shows : machine.Shows value other) (placed : other.Exact []) : other = rendering :=
    isShown.shows.unique isShown.placed shows placed
  have computed (fuel : Nat) (enough : machine.heap.cells.size * (machine.heap.cells.size + 2) ≤ fuel) :
      Query.inspectWithin fuel [] value machine = .ok rendering.text := by
    obtain ⟨other, isOther⟩ := renders fuel enough
    rw [isOther.computed, unique other isOther.shows isOther.placed]
  have bounded : Query.heapBound machine = .ok (machine.heap.cells.size + 1) := rfl
  refine ⟨rendering, isShown.shows, isShown.placed, unique, computed, VM.liftM_of_ok ?_⟩
  rw [Query.inspect, Query.bind_of_ok bounded]
  exact computed _ (Nat.mul_le_mul_right _ (Nat.le_add_right _ 2))

/-- A host creates an object that it stores in a variable of the object. -/
def selfHolder (classHandle : Handle) : VM Value := do
  let object ← VM.newObject classHandle
  VM.setVariable object "@self" object
  return object

variable {classHandle : Handle} {record : ClassRecord}

theorem hostTask_selfHolder {engine : Engine} (known : machine.class? classHandle = some record) :
    HostTask captures engine machine fun _ => selfHolder classHandle :=
  .next (.newObject known) fun object _ _ _ isObject =>
    .next (.request (.setVariable object "@self" object)) fun _ _ _ advances _ =>
      .finish object (isObject.mono advances.issued_subset)

/-- A plain object that keeps nothing but itself is live with its class. -/
theorem isLive_of_selfHolding {handle : Handle} {object : Object} (found : machine.heap.get? handle = some object)
    (isPlain : object.content = .plain)
    (itself : ∀ name target, (name, Value.object target) ∈ object.fields.entries → target = handle)
    (classLive : (machine.heap.get? object.classHandle).isSome) : (Value.object handle).IsLive machine := by
  have stays {target : Handle} (keeps : machine.Keeps handle target) : target = handle := by
    cases keeps with
    | content foundToo _ stored =>
        obtain rfl := Option.some.inj (found.symm.trans foundToo)
        rw [isPlain] at stored
        cases stored
    | field foundToo stored =>
        obtain rfl := Option.some.inj (found.symm.trans foundToo)
        exact itself _ _ stored
    | attached known =>
        obtain ⟨_, foundToo, isClass⟩ := Query.exists_content_of_class? known
        obtain rfl := Option.some.inj (found.symm.trans foundToo)
        exact nomatch isPlain.symm.trans isClass
  intro other target isHandle leads
  cases isHandle
  have isItself : target = handle := by
    induction leads with
    | refl => rfl
    | tail _ keeps inductionHypothesis =>
        rw [inductionHypothesis] at keeps
        exact stays keeps
  exact ⟨object, isItself ▸ found, classLive⟩

theorem setVariable_of_found {handle : Handle} {object : Object} (found : machine.heap.get? handle = some object)
    (notFrozen : object.frozen = false) (text : String) (content : Value) :
    ∃ name next, VM.setVariable (.object handle) text content machine = .ok () next ∧
      ∀ other, next.heap.get? other =
        if other = handle then some { object with fields := object.fields.insert name content }
        else machine.heap.get? other := by
  let named : Machine := { machine with symbols := (machine.symbols.intern (Text.utf8 text)).1 }
  let name := (machine.symbols.intern (Text.utf8 text)).2
  let change (object : Object) : Object := { object with fields := object.fields.insert name content }
  let next : Machine := { named.rewrite handle change with heap := (named.rewrite handle change).heap.grow 24 }
  have interned : VM.internText text machine = .ok name named := rfl
  have isFound : named.heap.get? handle = some object := found
  refine ⟨name, next, ?_, fun other => ?_⟩
  · rw [VM.setVariable, VM.bind_of_ok interned, VM.setInstanceVar,
      VM.bind_of_ok (VM.checkFrozen_of_found isFound notFrozen)]
    rfl
  · change (named.rewrite handle change).heap.get? other = _
    rw [get?_rewrite, isFound]
    rfl

/-- The object stores nothing but itself. -/
theorem exists_selfHolder (wellFormed : machine.heap.WellFormed) (known : machine.class? classHandle = some record) :
    ∃ object next, selfHolder classHandle machine = .ok object next ∧ object.IsLive next := by
  let created : Object := { classHandle, content := .plain }
  let handle := (machine.heap.allocate created).2
  have look (other : Handle) : (machine.allocate created).heap.get? other =
      if other = handle then some created else machine.heap.get? other := wellFormed.get?_allocate created other
  have isCreated : VM.newObject classHandle machine = .ok (.object handle) (machine.allocate created) := rfl
  have notFrozen : created.frozen = false := rfl
  obtain ⟨name, next, stored, lookOn⟩ :=
    setVariable_of_found ((look handle).trans (if_pos rfl)) notFrozen "@self" (.object handle)
  refine ⟨.object handle, next, ?_, ?_⟩
  · rw [selfHolder, VM.bind_of_ok isCreated, VM.bind_of_ok stored]
    rfl
  · refine isLive_of_selfHolding ((lookOn handle).trans (if_pos rfl)) rfl (fun name target member => ?_) ?_
    · have isField := List.mem_singleton.mp member
      exact Value.object.inj (congrArg Prod.snd isField)
    · obtain ⟨_, found, -⟩ := Query.exists_content_of_class? known
      rw [lookOn, look]
      dsimp only
      split
      · rfl
      · exact Option.isSome_of_eq_some found

/-- A host without methods makes an object that contains itself, which is shown. -/
theorem inspect_renders_selfHolder :
    HostsKeepWithin (fun _ => ∅) #[] ∧
    ∃ object machine, selfHolder ((new {}).coreClass .classClass) (new {}) = .ok object machine ∧
      Attained {} (fun _ => ∅) #[] .host machine ∧ object.IsLive machine ∧
      ∃ rendering, machine.Shows object rendering ∧ rendering.Exact [] ∧
        (∀ other, machine.Shows object other → other.Exact [] → other = rendering) ∧
        (∀ fuel, machine.heap.cells.size * (machine.heap.cells.size + 2) ≤ fuel →
          Query.inspectWithin fuel [] object machine = .ok rendering.text) ∧
        (liftM (Query.inspect object) : VM String) machine = .ok rendering.text machine := by
  have keep : HostsKeepWithin (fun _ => ∅) #[] := fun _ _ isHost => nomatch isHost
  obtain ⟨record, known⟩ := (sound_new {}).classClass
  obtain ⟨object, machine, created, live⟩ := exists_selfHolder (sound_new {}).coherent.hierarchical.wellFormed known
  have attained := Attained.host 0 (.new : Attained {} (fun _ => ∅) #[] .host _) (hostTask_selfHolder known)
  rw [VM.after_of_ok created] at attained
  exact ⟨keep, object, machine, created, attained, live, attained.inspect_renders keep live⟩

end Machine

end RiteVm
