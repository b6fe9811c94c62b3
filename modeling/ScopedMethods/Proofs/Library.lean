import ScopedMethods.Proofs.Queries
import ScopedMethods.Proofs.Registrations
import ScopedMethods.Showcase

/-!
# The types of the showcase

Over a tree without faults a scope of registered types can be laid, whatever is in
effect already. The tree that the showcase loads is such a tree; what each of its
categories lays is written out here.
-/

set_option autoImplicit false

namespace ScopedMethods

namespace TypeTree

variable {tree : TypeTree}

def Knows (tree : TypeTree) : Task → Prop
  | .ask _ ty => tree.registered ty = true
  | .announce ty _ => tree.registered ty = true
  | .offer m => tree.registered m.target = true

theorem knows_laying (ht : tree.Targeted) {ty : TypeId} (h : tree.registered ty = true) :
    ∀ task ∈ tree.laying ty, tree.Knows task := by
  have hline : ∀ u ∈ ty :: tree.ancestors ty, tree.registered u = true := by
    intro u hu
    rcases List.mem_cons.1 hu with rfl | hu
    · exact h
    · exact registered_of_ancestor h hu
  intro task htask
  rcases List.mem_append.1 htask with hask | hrest
  · obtain ⟨q, hq, rfl⟩ := List.mem_map.1 hask
    obtain ⟨u, hu, rfl⟩ := List.mem_map.1 hq
    exact hline u hu
  rcases List.mem_cons.1 hrest with rfl | hrest
  · exact h
  obtain ⟨u, hu, htask⟩ := List.mem_flatMap.1 hrest
  have hu : u ∈ ty :: tree.ancestors ty := List.mem_of_mem_dropLast (List.mem_reverse.1 hu)
  rcases List.mem_cons.1 htask with rfl | hoffer
  · exact hline u hu
  · obtain ⟨m, hm, rfl⟩ := List.mem_map.1 hoffer
    exact ht u m hm

theorem registered_placing {new : Candidate} (h : tree.registered new.target = true)
    (es : List Candidate) : ∀ q ∈ tree.placing new es, tree.registered q.2 = true := by
  induction es with
  | nil => exact fun q hq => nomatch hq
  | cons e es ih =>
    intro q hq
    rcases List.mem_append.1 hq with hq | hq
    · unfold comparing at hq
      split at hq
      · cases hq
      · obtain ⟨u, hu, rfl⟩ := List.mem_map.1 hq
        rcases List.mem_cons.1 hu with rfl | hu
        · exact h
        · exact registered_of_ancestor h ((List.takeWhile_sublist _).subset hu)
    · split at hq
      · cases hq
      · exact ih q hq

theorem registered_queries {tasks : List Task} (h : ∀ task ∈ tasks, tree.Knows task)
    (traced : Bool) (es : String → List Candidate) :
    ∀ q ∈ tree.queries traced tasks es, tree.registered q.2 = true := by
  induction tasks generalizing es with
  | nil => exact fun q hq => nomatch hq
  | cons task tasks ih =>
    obtain ⟨htask, hrest⟩ := List.forall_mem_cons.1 h
    intro q hq
    cases task with
    | ask query ty =>
      rcases List.mem_cons.1 hq with rfl | hq
      · exact htask
      · exact ih hrest es q hq
    | announce ty n =>
      rcases List.mem_append.1 hq with hq | hq
      · split at hq
        · rw [List.mem_singleton.1 hq]
          exact htask
        · cases hq
      · exact ih hrest es q hq
    | offer m =>
      rcases List.mem_append.1 hq with hq | hq
      · have htarget : tree.registered (Candidate.ofMethod m).target = true := htask
        exact registered_placing htarget _ q hq
      · exact ih hrest _ q hq

/-- Below the depth limit a scope of registered types is entered, whatever else is laid. -/
theorem verdict_of_registered (ht : tree.Targeted) {types : List TypeId}
    (h : ∀ ty ∈ types, tree.registered ty = true) (o : Outlook) (limit : Level) (traced : Bool) :
    o.verdict tree.catalog limit traced types =
      if limit ≠ 0 ∧ limit.toNat ≤ o.level.toNat then .error (.code .nestingTooDeep)
      else .ok () := by
  have hplan : ∀ task ∈ tree.plan types, tree.Knows task := by
    intro task htask
    obtain ⟨ty, hty, htask⟩ := List.mem_flatMap.1 htask
    exact knows_laying ht (h ty hty) task htask
  rw [Outlook.verdict, answered_of_registered (registered_queries hplan traced o.entries)]

end TypeTree

namespace Showcase

theorem load_tree (t : Caller) (ls : List Loading) (tree : TypeTree) (s s' : Store) :
    (load t ls tree s).1 = (load t ls tree s').1 := by
  induction ls generalizing tree s s' with
  | nil => rfl
  | cons l ls ih =>
    cases l with
    | type name parent =>
      simp only [load, TypeTree.registerReporting_eq]
      cases tree.register name parent <;> exact ih _ _ _
    | method on d =>
      simp only [load, TypeTree.declareReporting_eq]
      cases tree.declare on d with
      | error f => exact ih _ _ _
      | ok tree' =>
        simp only
        cases tree'.info? on <;> exact ih _ _ _

theorem load_targeted (t : Caller) (ls : List Loading) {tree : TypeTree} (s : Store)
    (ht : tree.Targeted) : (load t ls tree s).1.Targeted := by
  induction ls generalizing tree s with
  | nil => exact ht
  | cons l ls ih =>
    cases l with
    | type name parent => exact ih _ ((tree.tree_registerReporting t name parent s).2 ht)
    | method on d => exact ih _ ((tree.tree_declareReporting t on d s).2 ht)

def library : TypeTree := (load mainCaller loadings TypeTree.new (Store.new none)).1

theorem catalog_start (v : Option Log.Verbosity) (o : Options) :
    (start v o).catalog = library.catalog := by
  simp only [start]
  exact congrArg TypeTree.catalog (load_tree _ _ _ _ _)

theorem library_targeted : library.Targeted :=
  load_targeted _ _ _ TypeTree.targeted_new

def numberDescribed : Method :=
  ⟨.declared 0, "describe", verbose, number,
    some (.onNumber fun x => "the number " ++ Decimal.ofFloat x)⟩

def stringDescribed : Method :=
  ⟨.declared 1, "describe", verbose, string,
    some (.onText fun s => "the string \"" ++ s ++ "\"")⟩

def stringShouted : Method := ⟨.declared 2, "shout", verbose, string, some (.onText shouted)⟩

def numberShown : Method :=
  ⟨.declared 3, "describe", terse, number, some (.onNumber Decimal.ofFloat)⟩

def integerDescribed : Method :=
  ⟨.declared 4, "describe", integerCategory, integer,
    some (.onNumber fun x => "the integer " ++ Decimal.ofFloat x)⟩

theorem library_types : library.types =
    #[⟨"Object", none, [], 0⟩, ⟨"Number", some TypeTree.root, [], 0⟩,
      ⟨"Integer", some number, [], 0⟩, ⟨"String", some TypeTree.root, [], 0⟩,
      ⟨"Verbose_category", some TypeTree.root,
        [numberDescribed, stringDescribed, stringShouted], 3⟩,
      ⟨"Terse_category", some TypeTree.root, [numberShown], 2⟩,
      ⟨"Integer_category", some verbose, [integerDescribed], 1⟩] := by
  with_unfolding_all rfl

theorem library_registered (ty : TypeId) : library.registered ty = decide (ty.number < 7) := by
  rw [TypeTree.registered, TypeTree.size, library_types]
  rfl

/-- A scope of one type of the library can be entered, unless the depth is limited to that
of the thread. -/
theorem verdict_library (view : Outlook) (limit : Level) (traced : Bool) {ty : TypeId}
    (hty : library.registered ty = true) :
    view.verdict library.catalog limit traced [ty] =
      if limit ≠ 0 ∧ limit.toNat ≤ view.level.toNat then .error (.code .nestingTooDeep)
      else .ok () :=
  TypeTree.verdict_of_registered library_targeted (List.forall_mem_singleton.2 hty) view limit
    traced

theorem parent?_library (ty : TypeId) : library.parent? ty =
    [none, some TypeTree.root, some number, some TypeTree.root, some TypeTree.root,
      some TypeTree.root, some verbose][ty.number]?.join := by
  rw [TypeTree.parent?, TypeTree.info?, library_types]
  rcases ty with ⟨_ | _ | _ | _ | _ | _ | _ | n⟩ <;> rfl

theorem ancestors_root : library.ancestors TypeTree.root = [] :=
  TypeTree.ancestors_of_none (parent?_library _)

theorem ancestors_verbose : library.ancestors verbose = [TypeTree.root] := by
  rw [TypeTree.ancestors_of_some (parent?_library _), ancestors_root]

theorem ancestors_terse : library.ancestors terse = [TypeTree.root] := by
  rw [TypeTree.ancestors_of_some (parent?_library _), ancestors_root]

theorem ancestors_integerCategory :
    library.ancestors integerCategory = [verbose, TypeTree.root] := by
  rw [TypeTree.ancestors_of_some (parent?_library _), ancestors_verbose]

theorem methodsOf_library (ty : TypeId) : library.methodsOf ty =
    [[], [], [], [], [numberDescribed, stringDescribed, stringShouted], [numberShown],
      [integerDescribed]][ty.number]?.getD [] := by
  rw [TypeTree.methodsOf, TypeTree.info?, library_types]
  rcases ty with ⟨_ | _ | _ | _ | _ | _ | _ | n⟩ <;> rfl

theorem laid_verbose :
    library.laid [verbose] = [numberDescribed, stringDescribed, stringShouted] := by
  rw [TypeTree.laid, List.flatMap_singleton, TypeTree.offered, TypeTree.line, ancestors_verbose]
  exact (List.append_nil _).trans (methodsOf_library verbose)

theorem laid_terse : library.laid [terse] = [numberShown] := by
  rw [TypeTree.laid, List.flatMap_singleton, TypeTree.offered, TypeTree.line, ancestors_terse]
  exact (List.append_nil _).trans (methodsOf_library terse)

theorem laid_integerCategory : library.laid [integerCategory] =
    [numberDescribed, stringDescribed, stringShouted, integerDescribed] := by
  rw [TypeTree.laid, List.flatMap_singleton, TypeTree.offered, TypeTree.line,
    ancestors_integerCategory]
  show library.methodsOf verbose ++ (library.methodsOf integerCategory ++ []) = _
  rw [methodsOf_library, methodsOf_library]
  rfl

end Showcase

end ScopedMethods
