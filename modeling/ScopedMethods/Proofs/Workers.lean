import ScopedMethods.Proofs.Remarks
import ScopedMethods.Proofs.Routines
import ScopedMethods.Proofs.Views

/-!
# Work under scopes

What a worker does leaves what its thread sees as it was, from a dispatch to a whole
iteration. Results and remarks follow from the categories that are laid, and from the depth
limit, which a worker meets at its inner scope or not at all.
-/

set_option autoImplicit false

namespace ScopedMethods.Showcase

def Plain (v : Option Log.Verbosity) : Prop :=
  (Journal.new v).admits .info (some .uncategorized) = true ∧
    (Journal.new v).admits .trace (some .uncategorized) = false

instance : DecidablePred Plain := fun _ => inferInstanceAs (Decidable (_ ∧ _))

example : Plain (some (Log.Verbosity.new .info)) := by decide

/-- Work of a thread after which it sees what it saw. If its remarks are of interest, they
are these. -/
structure Made (q : Prop) (t : Caller) (r : Realm) (s : Store) (r' : Realm) (s' : Store)
    (messages : List String) : Prop where
  quiet : r.Quiet t.thread s r' s'
  remarks : q → s'.journal.remarks = s.journal.remarks ++
    messages.map fun m => ⟨t, .remark (some .uncategorized) .info m⟩

/-- How work ends, and what it made. -/
structure Gives {α : Type} (q : Prop) (t : Caller) (r : Realm) (s : Store)
    (o : Except Failure α × Realm × Store) (result : Except Failure α)
    (messages : List String) : Prop where
  result : o.1 = result
  made : Made q t r s o.2.1 o.2.2 messages

/-- Where a thread stands: the depth limit, what the thread sees, and room for so many more
scopes before the tally of them wraps around. -/
structure Stands (v : Option Log.Verbosity) (limit : Level) (room : Nat) (view : Outlook)
    (t : Nat) (r : Realm) (s : Store) : Prop where
  sound : r.Sound s
  verbosity : s.journal.verbosity = v
  limit : r.options.maxDepth = limit
  view : r.outlook s t = view
  room : r.openScopes + room < 2 ^ 64

def andThen {α β : Type} (o : Except Failure α × Realm × Store)
    (k : α → Realm → Store → Except Failure β × Realm × Store) :
    Except Failure β × Realm × Store :=
  match o with
  | (.error f, r, s) => (.error f, r, s)
  | (.ok a, r, s) => k a r s

variable {α β : Type} {q : Prop} {v : Option Log.Verbosity} {limit : Level} {room : Nat}
  {view : Outlook} {t : Caller} {r r₁ r' : Realm} {s s₁ s' : Store} {ms ms' : List String}

namespace Made

theorem of_unremarked (hq : r.Quiet t.thread s r' s') (hu : q → s.Unremarked s') :
    Made q t r s r' s' [] :=
  ⟨hq, fun h => Eq.trans (hu h) (List.append_nil _).symm⟩

theorem refl (hr : r.Sound s) : Made q t r s r s [] := of_unremarked (.refl hr _) fun _ => rfl

theorem trans (h : Made q t r s r₁ s₁ ms) (h' : Made q t r₁ s₁ r' s' ms') :
    Made q t r s r' s' (ms ++ ms') where
  quiet := h.quiet.trans h'.quiet
  remarks := fun hq => by
    rw [h'.remarks hq, h.remarks hq, List.map_append, List.append_assoc]

end Made

namespace Stands

theorem made (h : Stands v limit room view t.thread r s) (hm : Made q t r s r' s' ms) :
    Stands v limit room view t.thread r' s' where
  sound := hm.quiet.move.sound
  verbosity := hm.quiet.move.store.verbosity.trans h.verbosity
  limit := by rw [hm.quiet.move.options, h.limit]
  view := hm.quiet.same.trans h.view
  room := by
    have hopen := hm.quiet.move.openScopes
    have hroom := h.room
    rw [hm.quiet.same] at hopen
    omega

theorem entered (h : Stands v limit (room + 1) view t.thread r s)
    (hm : Realm.Move t.thread r s r₁ s₁) {tree : TypeTree} {types : List TypeId}
    (hover : view.Over tree types (r₁.outlook s₁ t.thread)) :
    Stands v limit room (r₁.outlook s₁ t.thread) t.thread r₁ s₁ where
  sound := hm.sound
  verbosity := hm.store.verbosity.trans h.verbosity
  limit := by rw [hm.options, h.limit]
  view := rfl
  room := by
    have hopen := hm.openScopes
    have hroom := h.room
    rw [h.view, hover.level] at hopen
    omega

theorem remark (h : Stands v limit room view t.thread r s) (m : String) :
    Made (Plain v) t r s r (Showcase.remark t .info m s) [m] where
  quiet := (Realm.Quiet.refl h.sound _).note t _
  remarks := fun hq => Journal.remarks_remark t m
    ((Site.admits_congr (j := Journal.new v) h.verbosity _ _).trans hq.1)

end Stands

namespace Gives

variable {o : Except Failure α × Realm × Store} {result : Except Failure α}

theorem after (h : Made q t r s r₁ s₁ ms) (h' : Gives q t r₁ s₁ o result ms') :
    Gives q t r s o result (ms ++ ms') :=
  ⟨h'.result, h.trans h'.made⟩

theorem andThen {a : α} {k : α → Realm → Store → Except Failure β × Realm × Store}
    {result : Except Failure β} (h : Gives q t r s o (.ok a) ms)
    (hk : Gives q t o.2.1 o.2.2 (k a o.2.1 o.2.2) result ms') :
    Gives q t r s (andThen o k) result (ms ++ ms') := by
  obtain ⟨ended, r₁, s₁⟩ := o
  obtain rfl : ended = .ok a := h.result
  exact hk.after h.made

theorem refused {f : Failure} (h : Gives q t r s o (.error f) ms)
    (k : α → Realm → Store → Except Failure β × Realm × Store) :
    Gives q t r s (Showcase.andThen o k) (.error f) ms := by
  obtain ⟨ended, r₁, s₁⟩ := o
  obtain rfl : ended = .error f := h.result
  exact ⟨rfl, h.made⟩

end Gives

-- What each function of a worker does next, so that its proof is put together from the parts.
section Steps

variable {c : Catalog}

theorem describeAndShout_eq (ty : TypeId) (x : Float) (text : String) :
    describeAndShout c t ty x text r s =
      andThen (dispatch c t "shout" string (.text text) r s) fun shout r s =>
        andThen (dispatch c t "describe" ty (.number x) r s) fun description r s =>
          (.ok (description ++ " / " ++ shout), r, s) := by
  rw [describeAndShout]
  rcases dispatch c t "shout" string (.text text) r s with ⟨_ | shout, r, s⟩
  · rfl
  · simp only [andThen]
    rcases dispatch c t "describe" ty (.number x) r s with ⟨_ | _, _, _⟩ <;> rfl

theorem outerBody_eq (x : Float) (text : String) :
    outerBody c t x text r s =
      andThen (r.within c t [integerCategory] (describeAndShout c t integer x text) s)
        fun inner r s => describeAndShout c t number x text r
          (remark t .info s!"Level [2] gave [{inner}]." s) := by
  rw [outerBody]
  rcases r.within c t [integerCategory] (describeAndShout c t integer x text) s with
    ⟨_ | _, _, _⟩ <;> rfl

theorem iteration_eq (index i : UInt64) :
    iteration c t index i r s =
      andThen (r.within c t [outerCategory index]
        (outerBody c t (index * 10 + i).toFloat s!"hello from {index}") s)
        fun result r s => (.ok (), r, remark t .info s!"Level [1] gave [{result}]." s) := by
  simp only [iteration]
  rw [show (if index % 2 = 0 then verbose else terse) = outerCategory index from rfl]
  rcases r.within c t [outerCategory index] (outerBody c t (index * 10 + i).toFloat _) s with
    ⟨_ | _, _, _⟩ <;> rfl

theorem iterate_succ (index : UInt64) (n : Nat) (i : UInt64) :
    iterate c t index (n + 1) i r s =
      andThen (iteration c t index i r s) fun _ r s => iterate c t index n (i + 1) r s := by
  rw [iterate]
  rcases iteration c t index i r s with ⟨_ | _, _, _⟩ <;> rfl

theorem work_eq (index : UInt64) (n : Nat) :
    work c t index n r s =
      andThen (iterate c t index n 0 r s) fun _ r s =>
        andThen (dispatch c t "describe" number (.number 1) r s) fun result r s =>
          (.ok (), r, remark t .info s!"Outside: [{result}]." s) := by
  rw [work]
  rcases iterate c t index n 0 r s with ⟨_ | _, r, s⟩
  · rfl
  · simp only [andThen]
    rcases dispatch c t "describe" number (.number 1) r s with ⟨_ | _, _, _⟩ <;> rfl

end Steps

section Dispatch

theorem callCandidate_made (h : Stands v limit room view t.thread r s) (c : Catalog)
    (name : String) (ty : TypeId) (receiver : Value) (e : Candidate) :
    Made (Plain v) t r s r (callCandidate c t name ty receiver e s).2 [] := by
  have hsame : Made (Plain v) t r s r s [] := .refl h.sound
  simp only [callCandidate]
  split
  · rename_i htraced
    cases c.typeName ty with
    | error f => exact hsame
    | ok shown =>
      refine ⟨hsame.quiet.note t _, fun hq => ?_⟩
      rw [Site.admits_congr (j := Journal.new v) h.verbosity, hq.2] at htraced
      cases htraced
  · exact hsame

theorem dispatch_made (h : Stands v limit room view t.thread r s) (c : Catalog)
    (name : String) (ty : TypeId) (receiver : Value) :
    Made (Plain v) t r s (dispatch c t name ty receiver r s).2.1
      (dispatch c t name ty receiver r s).2.2 [] := by
  have hactive := Made.of_unremarked (q := Plain v) (Realm.activeHere_spec h.sound t).1
    fun _ => Realm.unremarked_activeHere t r s
  rw [dispatch]
  generalize r.activeHere t s = o at hactive
  obtain ⟨flag, r₁, s₁⟩ := o
  cases flag with
  | false => exact hactive
  | true =>
    have hlookup := hactive.trans (.of_unremarked
      (Realm.lookup_spec hactive.quiet.move.sound t name).1
      fun _ => Realm.unremarked_lookup t r₁ s₁ name)
    simp only
    generalize r₁.lookup t name s₁ = o at hlookup
    obtain ⟨found, r₂, s₂⟩ := o
    cases found with
    | none => exact hlookup
    | some id =>
      simp only
      cases applicable? c ty (s₂.chain id).entries with
      | error f => exact hlookup
      | ok choice =>
        cases choice with
        | none => exact hlookup
        | some e => exact hlookup.trans (callCandidate_made (h.made hlookup) c name ty receiver e)

theorem dispatch_gives (h : Stands v limit room view t.thread r s) {ty : TypeId}
    (hty : library.registered ty = true) (name : String) (receiver : Value) :
    Gives (Plain v) t r s (dispatch library.catalog t name ty receiver r s)
      ((choose library ty name view).answer name receiver) [] where
  result := by
    rw [← h.view]
    exact dispatch_eq h.sound hty t (Nat.lt_of_le_of_lt (Nat.le_add_right _ _) h.room) name receiver
  made := dispatch_made h library.catalog name ty receiver

theorem describeAndShout_gives (h : Stands v limit room view t.thread r s) {ty : TypeId}
    (hty : library.registered ty = true) {x : Float} {text a b : String}
    (ha : (choose library ty "describe" view).answer "describe" (.number x) = .ok a)
    (hb : (choose library string "shout" view).answer "shout" (.text text) = .ok b) :
    Gives (Plain v) t r s (describeAndShout library.catalog t ty x text r s)
      (.ok (a ++ " / " ++ b)) [] := by
  have hshout := dispatch_gives h (library_registered string) "shout" (.text text)
  rw [hb] at hshout
  have hdescribe := dispatch_gives (h.made hshout.made) hty "describe" (.number x)
  rw [ha] at hdescribe
  have hlast := h.made (hshout.made.trans hdescribe.made)
  rw [describeAndShout_eq]
  exact hshout.andThen (hdescribe.andThen ⟨rfl, .refl hlast.sound⟩)

end Dispatch

section Within

variable {types : List TypeId} {c : Catalog}

theorem within_refused (h : Stands v limit room view t.thread r s)
    (hl : limit = 0 → view.level.toNat + 1 < 2 ^ 32) {f : Failure}
    (hv : view.verdict c limit s.traced types = .error f)
    (body : Realm → Store → Except Failure α × Realm × Store) :
    Gives q t r s (r.within c t types body s) (.error f) [] := by
  have he := Realm.enter_spec h.sound c t types (by rw [h.limit, h.view]; exact hl)
  have hu := Realm.unremarked_enter t r s c types
  have hverdict := he.verdict
  rw [h.limit, h.view, hv] at hverdict
  rw [Realm.within]
  generalize r.enter c t types s = o at he hu hverdict
  obtain ⟨result, r', s'⟩ := o
  cases result with
  | ok id => cases hverdict
  | error g =>
    cases hverdict
    exact ⟨rfl, .of_unremarked ⟨he.move, he.refused _ rfl, he.pinned⟩ fun _ => hu⟩

/-- A scope is left however its body ends, and gives what the body gives. -/
theorem within_entered (h : Stands v limit (room + 1) view t.thread r s)
    (hl : limit = 0 → view.level.toNat + 1 < 2 ^ 32)
    (hv : view.verdict c limit s.traced types = .ok ())
    (body : Realm → Store → Except Failure α × Realm × Store) :
    ∃ r₁ s₁ view₁, Stands v limit room view₁ t.thread r₁ s₁ ∧ view.Over c.tree types view₁ ∧
      ∀ {q : Prop} {result : Except Failure α} {ms : List String},
        Gives q t r₁ s₁ (body r₁ s₁) result ms →
        Gives q t r s (r.within c t types body s) result ms := by
  have he := Realm.enter_spec h.sound c t types (by rw [h.limit, h.view]; exact hl)
  have hu := Realm.unremarked_enter t r s c types
  have hverdict := he.verdict
  rw [h.limit, h.view, hv] at hverdict
  rw [Realm.within]
  generalize r.enter c t types s = o at he hu hverdict
  obtain ⟨entered, r₁, s₁⟩ := o
  cases entered with
  | error f => cases hverdict
  | ok id =>
    obtain ⟨-, hover⟩ := he.entered id rfl
    rw [h.view] at hover
    refine ⟨r₁, s₁, _, h.entered he.move hover, hover, fun {q result ms} hgives => ?_⟩
    have hquiet := Realm.quiet_host (o := (.ok id, r₁, s₁)) he.opened hgives.made.quiet
    simp only [Realm.host] at hquiet
    simp only
    generalize body r₁ s₁ = o at hgives hquiet
    obtain ⟨ended, r₂, s₂⟩ := o
    refine ⟨hgives.result, hquiet, fun hq => ?_⟩
    have hleave : s₂.Unremarked (r₂.leave t id s₂).2 := Realm.unremarked_leave t r₂ s₂ id
    exact Eq.trans hleave ((hgives.made.remarks hq).trans (congrArg (· ++ _) hu))

theorem dispatch_within (h : Stands v limit (room + 1) view t.thread r s)
    (hl : limit = 0 → view.level.toNat + 1 < 2 ^ 32) (name : String) (ty : TypeId)
    (receiver : Value) :
    let o := r.within c t types (dispatch c t name ty receiver) s
    Made (Plain v) t r s o.2.1 o.2.2 [] := by
  cases hv : view.verdict c limit s.traced types with
  | error f => exact (within_refused h hl hv _).made
  | ok u =>
    obtain ⟨r₁, s₁, view₁, hstands, -, hgives⟩ := within_entered h hl hv _
    exact (hgives ⟨rfl, dispatch_made hstands c name ty receiver⟩).made

end Within

section Shift

variable {index : UInt64}

theorem innerView_given (h : Stands v limit room view t.thread r s)
    (hb : view.Built [laying integerCategory, laying (outerCategory index)]) (x : Float) :
    Gives (Plain v) t r s (describeAndShout library.catalog t integer x s!"hello from {index}" r s)
      (.ok (innerView index x)) [] := by
  obtain ⟨hdescribe, hshout⟩ := choose_inner hb
  have hview := greeted "the integer " (Decimal.ofFloat x) index
  rw [show innerView index x = _ from hview.symm]
  exact describeAndShout_gives h (library_registered integer) (by rw [hdescribe]; rfl)
    (by rw [hshout]; rfl)

theorem outerView_given (h : Stands v limit room view t.thread r s)
    (hb : view.Built [laying (outerCategory index)]) (x : Float) :
    Gives (Plain v) t r s (describeAndShout library.catalog t number x s!"hello from {index}" r s)
      (.ok (outerView index x)) [] := by
  obtain ⟨hdescribe, hshout⟩ := choose_outer hb
  have hnumber := library_registered number
  by_cases heven : index % 2 = 0
  · rw [if_pos heven] at hdescribe hshout
    have hview := greeted "the number " (Decimal.ofFloat x) index
    rw [show outerView index x = _ from (if_pos heven).trans hview.symm]
    exact describeAndShout_gives h hnumber (by rw [hdescribe]; rfl) (by rw [hshout]; rfl)
  · rw [if_neg heven] at hdescribe hshout
    have hview : Decimal.ofFloat x ++ " / " ++ "<shout: not overlaid>" =
        s!"{Decimal.ofFloat x} / <shout: not overlaid>" := String.append_assoc
    rw [show outerView index x = _ from (if_neg heven).trans hview.symm]
    exact describeAndShout_gives h hnumber (by rw [hdescribe]; rfl) (by rw [hshout]; rfl)

theorem outerBody_given (h : Stands v limit (room + 1) view t.thread r s)
    (hb : view.Built [laying (outerCategory index)]) (hlimit : limit ≠ 1) (x : Float) :
    Gives (Plain v) t r s (outerBody library.catalog t x s!"hello from {index}" r s)
      (.ok (outerView index x)) [s!"Level [2] gave [{innerView index x}]."] := by
  have hlevel := level_of_built hb
  have hbelow : ¬ (limit ≠ 0 ∧ limit.toNat ≤ view.level.toNat) := by
    rintro ⟨h0, hle⟩
    have h0 : limit.toNat ≠ 0 := fun h => h0 (UInt32.toNat_inj.1 h)
    exact hlimit (UInt32.toNat_inj.1 (show _ = 1 by omega))
  obtain ⟨r₁, s₁, view₁, hstands, hover, hgives⟩ := within_entered h (by omega)
    ((verdict_library view limit _ (library_registered integerCategory)).trans (if_neg hbelow))
    (describeAndShout library.catalog t integer x s!"hello from {index}")
  have hinner := hgives (innerView_given hstands ⟨view, hover, hb⟩ x)
  have hsaid := (h.made hinner.made).remark s!"Level [2] gave [{innerView index x}]."
  have houter := outerView_given (h.made (hinner.made.trans hsaid)) hb x
  rw [outerBody_eq]
  exact hinner.andThen (houter.after hsaid)

/-- Where one scope is the limit, a worker does not get into the scope of integers. -/
theorem outerBody_refused (h : Stands v 1 room view t.thread r s)
    (hb : view.Built [laying (outerCategory index)]) (x : Float) (text : String) :
    Gives q t r s (outerBody library.catalog t x text r s) (.error (.code .nestingTooDeep)) [] := by
  have hlevel := level_of_built hb
  have hinner := within_refused (q := q) h (by omega)
    ((verdict_library view 1 _ (library_registered integerCategory)).trans
      (if_pos (by rw [hlevel]; decide)))
    (describeAndShout library.catalog t integer x text)
  rw [outerBody_eq]
  exact hinner.refused _

theorem within_outer (h : Stands v limit (room + 1) Outlook.idle t.thread r s) (index : UInt64)
    (body : Realm → Store → Except Failure α × Realm × Store) :
    ∃ r₁ s₁ view₁, Stands v limit room view₁ t.thread r₁ s₁ ∧
      view₁.Built [laying (outerCategory index)] ∧
      ∀ {q : Prop} {result : Except Failure α} {ms : List String},
        Gives q t r₁ s₁ (body r₁ s₁) result ms →
        Gives q t r s (r.within library.catalog t [outerCategory index] body s) result ms := by
  have hty : library.registered (outerCategory index) = true := by
    rw [outerCategory]
    split <;> exact library_registered _
  have habove : ¬ (limit ≠ 0 ∧ limit.toNat ≤ Outlook.idle.level.toNat) := by
    rintro ⟨h0, hle⟩
    exact h0 (UInt32.toNat_inj.1 (Nat.le_zero.1 hle))
  obtain ⟨r₁, s₁, view₁, hstands, hover, hgives⟩ := within_entered h (fun _ => by decide)
    ((verdict_library Outlook.idle limit _ hty).trans (if_neg habove)) body
  exact ⟨r₁, s₁, view₁, hstands, ⟨Outlook.idle, hover, rfl⟩, hgives⟩

def iterationRemarks (index i : UInt64) : List String :=
  let x := (index * 10 + i).toFloat
  [s!"Level [2] gave [{innerView index x}].", s!"Level [1] gave [{outerView index x}]."]

theorem iteration_given (h : Stands v limit (room + 2) Outlook.idle t.thread r s)
    (hlimit : limit ≠ 1) (index i : UInt64) :
    Gives (Plain v) t r s (iteration library.catalog t index i r s) (.ok ())
      (iterationRemarks index i) := by
  obtain ⟨r₁, s₁, view₁, hstands, hb, hgives⟩ := within_outer h index
    (outerBody library.catalog t (index * 10 + i).toFloat s!"hello from {index}")
  have houter := hgives (outerBody_given hstands hb hlimit _)
  rw [iteration_eq]
  exact houter.andThen ⟨rfl, (h.made houter.made).remark _⟩

theorem iteration_refused (h : Stands v 1 (room + 1) Outlook.idle t.thread r s)
    (index i : UInt64) :
    Gives q t r s (iteration library.catalog t index i r s) (.error (.code .nestingTooDeep))
      [] := by
  obtain ⟨r₁, s₁, view₁, hstands, hb, hgives⟩ := within_outer h index
    (outerBody library.catalog t (index * 10 + i).toFloat s!"hello from {index}")
  rw [iteration_eq]
  exact (hgives (outerBody_refused hstands hb _ _)).refused _

/-- Each iteration starts from what the one before it left, which is what that started from. -/
theorem iterate_given (n : Nat) (i : UInt64)
    (h : Stands v limit (room + 2) Outlook.idle t.thread r s) (hlimit : limit ≠ 1 ∨ n = 0)
    (index : UInt64) :
    Gives (Plain v) t r s (iterate library.catalog t index n i r s) (.ok ())
      ((List.range n).flatMap fun j => iterationRemarks index (i + UInt64.ofNat j)) := by
  induction n generalizing i r s with
  | zero => exact ⟨rfl, .refl h.sound⟩
  | succ n ih =>
    have hlimit := hlimit.resolve_right (Nat.succ_ne_zero n)
    have hfirst := iteration_given h hlimit index i
    have hrest := ih (i + 1) (h.made hfirst.made) (.inl hlimit)
    have hcount : ∀ j, i + 1 + UInt64.ofNat j = i + UInt64.ofNat (j + 1) := by
      intro j
      rw [UInt64.ofNat_add, UInt64.add_assoc, UInt64.add_comm 1]
      rfl
    simp only [hcount] at hrest
    rw [iterate_succ, List.range_succ_eq_map, List.flatMap_cons, List.flatMap_map,
      show i + UInt64.ofNat 0 = i from UInt64.add_zero i]
    exact hfirst.andThen hrest

def workRemarks (index : UInt64) (n : Nat) : List String :=
  (List.range n).flatMap (fun i => iterationRemarks index (UInt64.ofNat i)) ++
    ["Outside: [<describe: no overlay scope>]."]

theorem work_given (n : Nat) (h : Stands v limit (room + 2) Outlook.idle t.thread r s)
    (hlimit : limit ≠ 1 ∨ n = 0) (index : UInt64) :
    Gives (Plain v) t r s (work library.catalog t index n r s) (.ok ())
      (workRemarks index n) := by
  have hiterate := iterate_given n 0 h hlimit index
  simp only [UInt64.zero_add] at hiterate
  have hlast := dispatch_gives (h.made hiterate.made) (library_registered number) "describe"
    (.number 1)
  have hsaid := (h.made (hiterate.made.trans hlast.made)).remark
    "Outside: [<describe: no overlay scope>]."
  rw [work_eq]
  exact hiterate.andThen (hlast.andThen ⟨rfl, hsaid⟩)

theorem work_refused {n : Nat} (h : Stands v 1 (room + 1) Outlook.idle t.thread r s)
    (hn : n ≠ 0) (index : UInt64) :
    Gives q t r s (work library.catalog t index n r s) (.error (.code .nestingTooDeep)) [] := by
  obtain ⟨m, rfl⟩ := Nat.exists_eq_succ_of_ne_zero hn
  rw [work_eq, iterate_succ]
  exact ((iteration_refused h index 0).refused _).refused _

end Shift

end ScopedMethods.Showcase
