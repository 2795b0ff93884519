import RiteVm.Proofs.Custody.Steps
import RiteVm.Proofs.Provenance.Mentions

/-!
Contract: a machine mentions nothing but what its heap has given out.

Owns:
- the handles that a heap has issued, and heaps whose cells are ahead of those of another one;
- the anchors of an object, which are what its text or name is built on;
- founded heaps, in which every object has a greater rank than its anchors;
- told machines, which have a founded heap and mention issued handles only.

A handle that was issued stays so, and the handle of a new object was not issued before. So a
told machine has no way to mention an object before it is there, and what is built on an object
is younger. The ends of a range and the object of a singleton class never change, so no walk
along anchors comes back.
-/

namespace RiteVm

/-! ### Issued handles -/

namespace Heap

variable {before heap after : Heap} {handle : Handle}

/-- The heap has given a handle out: the cell of the slot has come to its generation. -/
def Issued (heap : Heap) (handle : Handle) : Prop :=
  ∃ cell, heap.cells[handle.slot]? = some cell ∧ handle.generation ≤ cell.generation

/-- The cells stay and their generations only grow. -/
def Advances (before after : Heap) : Prop :=
  ∀ (slot : Nat) (cell : Cell), before.cells[slot]? = some cell →
    ∃ later, after.cells[slot]? = some later ∧ cell.generation ≤ later.generation

theorem Advances.refl (heap : Heap) : heap.Advances heap := fun _ cell located => ⟨cell, located, Nat.le_refl _⟩

theorem Advances.trans (first : before.Advances heap) (second : heap.Advances after) :
    before.Advances after := by
  intro slot cell located
  obtain ⟨later, isLater, grows⟩ := first slot cell located
  obtain ⟨last, isLast, growsOn⟩ := second slot later isLater
  exact ⟨last, isLast, Nat.le_trans grows growsOn⟩

theorem Advances.issued (advances : before.Advances after) (issued : before.Issued handle) :
    after.Issued handle := by
  obtain ⟨cell, located, reached⟩ := issued
  obtain ⟨later, isLater, grows⟩ := advances _ cell located
  exact ⟨later, isLater, Nat.le_trans reached grows⟩

theorem Advances.of_cells (same : after.cells = before.cells) : before.Advances after := by
  rw [Advances, same]
  exact Advances.refl before

theorem issued_of_get? {object : Object} (found : heap.get? handle = some object) : heap.Issued handle := by
  rw [get?] at found
  split at found
  · rename_i cell located
    split at found
    · rename_i current
      exact ⟨cell, located, Nat.le_of_eq current.symm⟩
    · cases found
  · cases found

theorem WellFormed.issued_null (wellFormed : heap.WellFormed) : heap.Issued .null := by
  obtain ⟨cell, located, -⟩ := Option.map_eq_some_iff.mp wellFormed.reserved
  exact ⟨cell, located, Nat.zero_le _⟩

theorem advances_modifyCell (slot : Nat) (change : Cell → Cell)
    (grows : ∀ cell, cell.generation ≤ (change cell).generation)
    (cells : after.cells = before.cells.modify slot change) : before.Advances after := by
  intro place cell located
  rw [cells, Array.getElem?_modify, located]
  split
  · exact ⟨change cell, rfl, grows cell⟩
  · exact ⟨cell, rfl, Nat.le_refl _⟩

theorem advances_modify (heap : Heap) (handle : Handle) (change : Object → Object) :
    heap.Advances (heap.modify handle change) := by
  refine advances_modifyCell handle.slot _ (fun cell => ?_) (by rw [Heap.modify])
  split <;> exact Nat.le_refl _

theorem advances_remove (heap : Heap) (handle : Handle) : heap.Advances (heap.remove handle) :=
  advances_modifyCell handle.slot _ (fun cell => Nat.le_succ cell.generation) (by rw [Heap.remove])

theorem advances_place (heap : Heap) (object : Object) : heap.Advances (heap.place object).1 := by
  intro place cell located
  have inside := (Array.getElem?_eq_some_iff.mp located).1
  rw [Heap.place]
  split
  · rename_i slot rest reusable
    by_cases isSlot : slot = place
    · refine ⟨⟨cell.generation + 1, some object⟩, ?_, Nat.le_succ _⟩
      rw [Array.getElem?_setIfInBounds, if_pos isSlot, isSlot, if_pos inside, located]
      rfl
    · refine ⟨cell, ?_, Nat.le_refl _⟩
      rw [Array.getElem?_setIfInBounds, if_neg isSlot]
      exact located
  · refine ⟨cell, ?_, Nat.le_refl _⟩
    rw [Array.getElem?_push, if_neg (Nat.ne_of_lt inside)]
    exact located

/-- A new object moves its cell on to a generation that was not issued. -/
theorem not_issued_place_snd (heap : Heap) (object : Object) : ¬ heap.Issued (heap.place object).2 := by
  rintro ⟨cell, located, reached⟩
  rw [Heap.place] at located reached
  split at located
  · rename_i slot rest reusable
    simp only [reusable, located, Option.map_some, Option.getD_some] at reached
    omega
  · simp at located

theorem WellFormed.issued_allocate_snd (wellFormed : heap.WellFormed) (object : Object) :
    (heap.allocate object).1.Issued (heap.allocate object).2 :=
  issued_of_get? ((wellFormed.get?_allocate object _).trans (if_pos rfl))

end Heap

/-! ### Founded heaps -/

/-- The objects whose texts or names a content is rendered by without a placeholder in between:
the ends of a range, and the object of a singleton class. -/
inductive Content.Anchors : Content → Handle → Prop where
  | first {record : RangeRecord} {handle : Handle} :
      record.first = .object handle → Anchors (.range record) handle
  | last {record : RangeRecord} {handle : Handle} :
      record.last = .object handle → Anchors (.range record) handle
  | attached {record : ClassRecord} {handle : Handle} :
      record.attached = some handle → Anchors (.classOrModule record) handle

/-- Singleton classes have a superclass. -/
def Content.IsRooted : Content → Prop
  | .classOrModule record => record.kind = .singleton → record.superclass.isSome
  | _ => True

theorem Content.Anchors.mentioned {content : Content} {handle : Handle} (anchors : content.Anchors handle) :
    .object handle ∈ Mentions.of content := by
  cases anchors with
  | @first record _ isFirst =>
      have within : Within (Mentions.of record) record.first := inferInstance
      rw [isFirst] at within
      exact within.subset rfl
  | @last record _ isLast =>
      have within : Within (Mentions.of record) record.last := inferInstance
      rw [isLast] at within
      exact within.subset rfl
  | @attached record _ isAttached =>
      have within : Within (Mentions.of record) record.attached := inferInstance
      rw [isAttached] at within
      exact within.subset rfl

namespace Heap

variable {heap changed : Heap} {handle : Handle} {object : Object}

/-- The objects of a heap are ranked, and those that an object is built on below it. -/
structure Ranked (heap : Heap) (rank : Handle → Nat) (bound : Nat) : Prop where
  below : ∀ handle object, heap.get? handle = some object → rank handle < bound
  anchors : ∀ handle object anchor, heap.get? handle = some object → object.content.Anchors anchor →
    (heap.get? anchor).isSome → rank anchor < rank handle

/-- No walk along anchors comes back, and every singleton class has a superclass. -/
structure Founded (heap : Heap) : Prop where
  wellFormed : heap.WellFormed
  ranked : ∃ rank bound, heap.Ranked rank bound
  rooted : ∀ handle object, heap.get? handle = some object → object.content.IsRooted

/-- Fewer objects, or objects that are built on fewer ones. -/
theorem Founded.of_get? (founded : heap.Founded) (wellFormed : changed.WellFormed)
    (kept : ∀ handle object, changed.get? handle = some object →
      ∃ old, heap.get? handle = some old ∧
        (∀ anchor, object.content.Anchors anchor → old.content.Anchors anchor) ∧
        (old.content.IsRooted → object.content.IsRooted)) : changed.Founded := by
  obtain ⟨rank, bound, ranked⟩ := founded.ranked
  refine ⟨wellFormed, ⟨rank, bound, ?_, ?_⟩, ?_⟩
  · intro handle object found
    obtain ⟨old, wasFound, -⟩ := kept handle object found
    exact ranked.below handle old wasFound
  · intro handle object anchor found anchors isLive
    obtain ⟨old, wasFound, fewer, -⟩ := kept handle object found
    obtain ⟨target, isTarget⟩ := Option.isSome_iff_exists.mp isLive
    obtain ⟨source, wasTarget, -⟩ := kept anchor target isTarget
    exact ranked.anchors handle old anchor wasFound (fewer anchor anchors)
      (Option.isSome_iff_exists.mpr ⟨source, wasTarget⟩)
  · intro handle object found
    obtain ⟨old, wasFound, -, stays⟩ := kept handle object found
    exact stays (founded.rooted handle old wasFound)

theorem Founded.of_cells (founded : heap.Founded) (cells : changed.cells = heap.cells)
    (free : changed.free = heap.free) : changed.Founded := by
  refine founded.of_get? (founded.wellFormed.of_cells cells free) fun handle object found => ?_
  rw [Heap.get?, cells] at found
  exact ⟨object, found, fun _ => id, id⟩

/-- Another content of an object that is not built on more. -/
theorem Founded.modify (founded : heap.Founded) {change : Object → Object}
    (similar : ∀ object, heap.get? handle = some object →
      (∀ anchor, (change object).content.Anchors anchor → object.content.Anchors anchor) ∧
        (object.content.IsRooted → (change object).content.IsRooted)) :
    (heap.modify handle change).Founded := by
  refine founded.of_get? (founded.wellFormed.modify handle change) fun other object found => ?_
  rw [get?_modify] at found
  split at found
  · rename_i isHandle
    obtain ⟨old, wasFound, rfl⟩ := Option.map_eq_some_iff.mp found
    rw [isHandle]
    exact ⟨old, wasFound, similar old wasFound⟩
  · exact ⟨object, found, fun _ => id, id⟩

/-- A new object is built on objects that are there, and nothing is built on it. -/
theorem Founded.enter (founded : heap.Founded) {new : Handle} (isNew : ¬ heap.Issued new)
    (wellFormed : changed.WellFormed)
    (look : ∀ handle, changed.get? handle = if handle = new then some object else heap.get? handle)
    (mentioned : ∀ handle object anchor, heap.get? handle = some object →
      object.content.Anchors anchor → heap.Issued anchor)
    (isGiven : ∀ anchor, object.content.Anchors anchor → heap.Issued anchor)
    (rooted : object.content.IsRooted) : changed.Founded := by
  obtain ⟨rank, bound, ranked⟩ := founded.ranked
  have rankOf (handle : Handle) (isOther : handle ≠ new) :
      Function.update rank new bound handle = rank handle :=
    Function.update_of_ne isOther _ _
  have rankOfNew : Function.update rank new bound new = bound := Function.update_self _ _ _
  refine ⟨wellFormed, ⟨Function.update rank new bound, bound + 1, ?_, ?_⟩, ?_⟩
  · intro handle other found
    rw [look] at found
    split at found
    · rename_i isHandle
      rw [isHandle, rankOfNew]
      exact Nat.lt_succ_self bound
    · rename_i isOther
      rw [rankOf handle isOther]
      exact Nat.lt_succ_of_lt (ranked.below handle other found)
  · intro handle other anchor found anchors isLive
    -- nothing was built on the new object, not even by name
    have anchorIsOld : heap.Issued anchor := by
      rw [look] at found
      split at found
      · cases found
        exact isGiven anchor anchors
      · exact mentioned handle other anchor found anchors
    have anchorIsOther : anchor ≠ new := fun same => isNew (same ▸ anchorIsOld)
    rw [look, if_neg anchorIsOther] at isLive
    obtain ⟨target, isTarget⟩ := Option.isSome_iff_exists.mp isLive
    rw [rankOf anchor anchorIsOther]
    rw [look] at found
    split at found
    · rename_i isHandle
      rw [isHandle, rankOfNew]
      exact ranked.below anchor target isTarget
    · rename_i isOther
      rw [rankOf handle isOther]
      exact ranked.anchors handle other anchor found anchors isLive
  · intro handle other found
    rw [look] at found
    split at found
    · cases found
      exact rooted
    · exact founded.rooted handle other found

theorem founded_new (config : CollectorConfig) : (new config).Founded where
  wellFormed := wellFormed_new config
  ranked := ⟨fun _ => 0, 0,
    { below := fun handle _ found => nomatch (get?_new config handle).symm.trans found
      anchors := fun handle _ _ found => nomatch (get?_new config handle).symm.trans found }⟩
  rooted handle _ found := nomatch (get?_new config handle).symm.trans found

end Heap

/-! ### Told machines -/

variable {captures : Nat → Set Handle}

/-- What a heap has given out: handles, and methods of the host that capture nothing else. -/
def Heap.issued (captures : Nat → Set Handle) (heap : Heap) : Set Mention := fun
  | .object handle => heap.Issued handle
  | .host index => ∀ handle ∈ captures index, heap.Issued handle

theorem Heap.Advances.issued_subset {before after : Heap} (advances : before.Advances after) :
    before.issued captures ⊆ after.issued captures := by
  rintro (handle | index) isIssued
  · exact Heap.Advances.issued advances isIssued
  · exact fun handle captured => Heap.Advances.issued advances (isIssued handle captured)

namespace Machine

variable {machine changed : Machine} {handle : Handle} {object : Object}

/-- A machine has a founded heap and mentions what it has given out only. -/
structure Told (captures : Nat → Set Handle) (machine : Machine) : Prop where
  founded : machine.heap.Founded
  within : Within (machine.heap.issued captures) machine

theorem told_empty (captures : Nat → Set Handle) (config : Config) : (empty config).Told captures where
  founded := Heap.founded_new config.collector
  within := by
    have null : Within ((empty config).heap.issued captures) Handle.null := by
      refine ⟨fun mention isNull => ?_⟩
      obtain rfl : mention = .object .null := isNull
      exact (Heap.wellFormed_new config.collector).issued_null
    have heap : Within ((empty config).heap.issued captures) (empty config).heap :=
      Within.heap_iff.mpr fun handle _ found => nomatch (Heap.get?_new _ handle).symm.trans found
    have contexts : Within ((empty config).heap.issued captures) (empty config).contexts :=
      Within.of_toList (inferInstanceAs (Within _ [some (Context.mk #[] #[] none none)]))
    have methodCache : Within ((empty config).heap.issued captures) (empty config).methodCache :=
      Within.methodCache_iff.mpr fun key entry found => by simp [empty] at found
    have noFiber : Within ((empty config).heap.issued captures) (none : Option Handle) := inferInstance
    have noResumers : Within ((empty config).heap.issued captures) ([] : List (ContextId × Option Handle)) :=
      inferInstance
    have nothing : Within ((empty config).heap.issued captures) (none : Option Value) := inferInstance
    have noGlobals : Within ((empty config).heap.issued captures) ({} : Table Symbol Value) := inferInstance
    exact Within.machine_iff.mpr
      ⟨heap, contexts, noFiber, noResumers, nothing, noGlobals, fun _ => null, null, methodCache⟩

/-- A machine that mentions nothing new, with a heap that goes on. -/
theorem Told.of_within (told : machine.Told captures) (founded : changed.heap.Founded)
    (advances : machine.heap.Advances changed.heap) {seen : Set Mention}
    (isSeen : seen ⊆ machine.heap.issued captures)
    (within : Within (seen ∪ Mentions.of machine) changed) : changed.Told captures where
  founded := founded
  within := within.mono ((Set.union_subset isSeen told.within.subset).trans advances.issued_subset)

theorem Told.within_object (told : machine.Told captures) (found : machine.heap.get? handle = some object) :
    Within (machine.heap.issued captures) object :=
  have := told.within
  Within.of_get? found

/-- A machine with one more object, of which nothing was known, and which mentions what was. -/
theorem Told.enter (told : machine.Told captures) {new : Handle} (isNew : ¬ machine.heap.Issued new)
    (wellFormed : changed.heap.WellFormed) (advances : machine.heap.Advances changed.heap)
    (look : ∀ handle, changed.heap.get? handle = if handle = new then some object else machine.heap.get? handle)
    (outside : { changed with heap := machine.heap } = machine)
    (within : Within (machine.heap.issued captures) object) (rooted : object.content.IsRooted) :
    changed.Told captures := by
  refine ⟨told.founded.enter isNew wellFormed look (fun handle other anchor found anchors => ?_)
    (fun anchor anchors => ?_) rooted, ?_⟩
  · have stored := (Within.object_iff.mp (told.within_object found)).2.1
    exact stored.subset anchors.mentioned
  · exact (Within.object_iff.mp within).2.1.subset anchors.mentioned
  · have old := told.within.mono advances.issued_subset
    have others := Within.machine_iff.mp old
    rw [← outside] at others
    refine Within.machine_iff.mpr ⟨Within.heap_iff.mpr fun handle other found => ?_, others.2⟩
    rw [look] at found
    split at found
    · cases found
      exact within.mono advances.issued_subset
    · exact Within.of_get? found

theorem Told.allocate (told : machine.Told captures) (within : Within (machine.heap.issued captures) object)
    (rooted : object.content.IsRooted) : (machine.allocate object).Told captures :=
  told.enter (Heap.not_issued_place_snd machine.heap object) (told.founded.wellFormed.allocate object)
    (Heap.advances_place _ _) (told.founded.wellFormed.get?_allocate object) rfl within rooted

theorem Told.issued_allocate_snd (told : machine.Told captures) (object : Object) :
    Within ((machine.allocate object).heap.issued captures) (machine.heap.allocate object).2 :=
  ⟨fun _ isNew => by
    obtain rfl := isNew
    exact told.founded.wellFormed.issued_allocate_snd object⟩

/-- Another content of an object that mentions issued handles and is not built on more. -/
theorem Told.rewrite (told : machine.Told captures) {change : Object → Object}
    (similar : ∀ object, machine.heap.get? handle = some object →
      Within (machine.heap.issued captures) (change object) ∧
      (∀ anchor, (change object).content.Anchors anchor → object.content.Anchors anchor) ∧
        (object.content.IsRooted → (change object).content.IsRooted)) :
    (machine.rewrite handle change).Told captures := by
  have advances : machine.heap.Advances (machine.rewrite handle change).heap := Heap.advances_modify _ _ _
  refine ⟨told.founded.modify fun object found => (similar object found).2, ?_⟩
  have old := told.within.mono advances.issued_subset
  refine Within.machine_iff.mpr ⟨Within.heap_iff.mpr fun other object found => ?_, (Within.machine_iff.mp old).2⟩
  rw [get?_rewrite] at found
  split at found
  · obtain ⟨original, isOriginal, rfl⟩ := Option.map_eq_some_iff.mp found
    exact (similar original isOriginal).1.mono advances.issued_subset
  · exact Within.of_get? found

/-! ### Collections -/

theorem within_release {seen : Set Mention} (within : Within seen machine) (content : Content) :
    Within seen (machine.release content) := by
  have parts := Within.machine_iff.mp within
  cases content with
  | fiber record =>
      have : Within seen (machine.contexts.setIfInBounds record.context.index none) := inferInstance
      exact Within.machine_iff.mpr ⟨parts.1, this, parts.2.2⟩
  | data record => exact Within.machine_iff.mpr parts
  | _ => exact within

theorem within_reclaim {seen : Set Mention} (within : Within seen machine) (handle : Handle) :
    Within seen (machine.reclaim handle) := by
  rw [reclaim]
  split
  · rename_i object isObject
    refine within_release ?_ object.content
    have removed : Within seen (machine.heap.remove handle) :=
      Within.heap_iff.mpr fun other object found => by
        rw [Heap.get?_remove isObject] at found
        split at found
        · cases found
        · exact Within.of_get? found
    exact Within.machine_iff.mpr ⟨removed, (Within.machine_iff.mp within).2⟩
  · exact within

theorem within_foldl_reclaim {seen : Set Mention} (dead : List Handle) (within : Within seen machine) :
    Within seen (dead.foldl reclaim machine) := by
  induction dead generalizing machine with
  | nil => exact within
  | cons first rest inductionHypothesis => exact inductionHypothesis (within_reclaim within first)

theorem within_collect {seen : Set Mention} (within : Within seen machine) : Within seen machine.collect := by
  have reclaimed := within_foldl_reclaim machine.unreachable within
  have noEntries : Within seen
      { (machine.unreachable.foldl reclaim machine).methodCache with entries := ∅ } :=
    Within.methodCache_iff.mpr fun key entry found => by simp at found
  obtain ⟨heap, contexts, fiber, resumers, yielded, globals, core, main, -⟩ := Within.machine_iff.mp reclaimed
  have : Within seen machine.collect.heap := Within.of_cells (machine.unreachable.foldl reclaim machine).heap rfl
  exact Within.machine_iff.mpr ⟨this, contexts, fiber, resumers, yielded, globals, core, main, noEntries⟩

theorem advances_collect (machine : Machine) : machine.heap.Advances machine.collect.heap := by
  have reclaimed (dead : List Handle) (machine : Machine) :
      machine.heap.Advances (dead.foldl reclaim machine).heap := by
    induction dead generalizing machine with
    | nil => exact .refl _
    | cons first rest inductionHypothesis =>
        refine Heap.Advances.trans ?_ (inductionHypothesis _)
        rw [reclaim]
        split
        · rw [release_heap]
          exact Heap.advances_remove _ _
        · exact .refl _
  exact (reclaimed machine.unreachable machine).trans (.of_cells rfl)

theorem founded_collect (founded : machine.heap.Founded) : machine.collect.heap.Founded := by
  refine founded.of_get? (wellFormed_collect founded.wellFormed) fun handle object found => ?_
  rw [get?_collect] at found
  split at found
  · cases found
  · exact ⟨object, found, fun _ => id, id⟩

theorem Told.collect (told : machine.Told captures) : machine.collect.Told captures where
  founded := founded_collect told.founded
  within := (within_collect told.within).mono (advances_collect machine).issued_subset

end Machine

end RiteVm
