import ScopedMethods.Custody
import ScopedMethods.Proofs.Tables

/-!
# States and their holders

While a custody is open, each state on its register is held by the thread that
it is registered under, and every held state is registered. What a thread does
with its own state leaves the states of other threads to them.
-/

set_option autoImplicit false

namespace ScopedMethods.Custody

structure Sound (c : Custody) : Prop where
  isOpen : c.closed = false
  held : ∀ {t id : Nat}, c.held? t = some id ↔ ∃ r ∈ c.register, r.owner = t ∧ r.state = id
  distinct : (c.register.map Registration.state).Nodup

variable {c c' : Custody} {t u id : Nat}

theorem held?_setContext (x : TenantContext) :
    (c.setContext t x).held? u = if t = u then x.state else c.held? u := by
  rw [held?, setContext, Slots.get?_set]
  split <;> rfl

theorem held?_erase :
    ({ c with contexts := c.contexts.erase t } : Custody).held? u =
      if t = u then none else c.held? u := by
  rw [held?, Slots.get?_erase]
  split <;> rfl

theorem held?_setContext_same {x : TenantContext} (h : c.held? t = x.state) (u : Nat) :
    (c.setContext t x).held? u = c.held? u := by
  rw [held?_setContext]
  split
  · rename_i he
    rw [← he, h]
  · rfl

theorem held?_erase_none (h : c.held? t = none) (u : Nat) :
    ({ c with contexts := c.contexts.erase t } : Custody).held? u = c.held? u := by
  rw [held?_erase]
  split
  · rename_i he
    rw [← he, h]
  · rfl

theorem registered_iff : c.registered id = true ↔ ∃ r ∈ c.register, r.state = id := by
  simp [registered]

theorem registered_unregister (hr : c'.register = (c.unregister id).register) (i : Nat) :
    c'.registered i = if id = i then false else c.registered i := by
  rw [Bool.eq_iff_iff, registered_iff, hr]
  split
  · rename_i he
    simp [unregister, he]
  · rename_i he
    simp only [registered_iff, unregister, List.mem_filter]
    constructor
    · rintro ⟨q, ⟨hq, -⟩, hqi⟩
      exact ⟨q, hq, hqi⟩
    · rintro ⟨q, hq, hqi⟩
      exact ⟨q, ⟨hq, by simp [hqi, Ne.symm he]⟩, hqi⟩

theorem registered_cons {nickname : String} (hr : c'.register = ⟨id, t, nickname⟩ :: c.register)
    (i : Nat) : c'.registered i = if id = i then true else c.registered i := by
  simp only [registered, hr, List.any_cons]
  by_cases he : id = i <;> simp [he]

namespace Sound

theorem new (name : CustodyName) : (Custody.new name).Sound where
  isOpen := rfl
  held := by
    intro t id
    simp [Custody.new, held?, Slots.get?]
  distinct := List.nodup_nil

theorem registered_of_held (h : c.Sound) (ht : c.held? t = some id) : c.registered id = true := by
  obtain ⟨r, hr, -, hid⟩ := h.held.1 ht
  exact registered_iff.2 ⟨r, hr, hid⟩

theorem held_of_registered (h : c.Sound) (hr : c.registered id = true) :
    ∃ t, c.held? t = some id := by
  obtain ⟨r, hr, hid⟩ := registered_iff.1 hr
  exact ⟨r.owner, h.held.2 ⟨r, hr, rfl, hid⟩⟩

/-- A state has one holder. -/
theorem holder_unique (h : c.Sound) (ht : c.held? t = some id) (hu : c.held? u = some id) :
    t = u := by
  obtain ⟨r, hr, rfl, hrid⟩ := h.held.1 ht
  obtain ⟨q, hq, rfl, hqid⟩ := h.held.1 hu
  exact congrArg _ (List.inj_on_of_nodup_map h.distinct hr hq (hrid.trans hqid.symm))

theorem same (h : c.Sound) (ho : c'.closed = c.closed) (hr : c'.register = c.register)
    (hh : ∀ u, c'.held? u = c.held? u) : c'.Sound where
  isOpen := ho.trans h.isOpen
  held := by
    intro t id
    rw [hh, hr]
    exact h.held
  distinct := by
    rw [hr]
    exact h.distinct

theorem drop (h : c.Sound) (ht : c.held? t = some id) (ho : c'.closed = c.closed)
    (hr : c'.register = (c.unregister id).register)
    (hh : ∀ u, c'.held? u = if t = u then none else c.held? u) : c'.Sound where
  isOpen := ho.trans h.isOpen
  held := by
    intro u i
    have hmem : ∀ r, r ∈ c'.register ↔ r ∈ c.register ∧ r.state ≠ id := by
      intro r
      rw [hr]
      simp [unregister]
    rw [hh]
    constructor
    · intro hu
      split at hu
      · cases hu
      · rename_i hne
        obtain ⟨r, hr, hro, hrs⟩ := h.held.1 hu
        refine ⟨r, (hmem r).2 ⟨hr, ?_⟩, hro, hrs⟩
        rintro rfl
        exact hne (h.holder_unique ht (hrs ▸ hu))
    · rintro ⟨r, hr, rfl, rfl⟩
      obtain ⟨hr, hne⟩ := (hmem r).1 hr
      have hu : c.held? r.owner = some r.state := h.held.2 ⟨r, hr, rfl, rfl⟩
      split
      · rename_i he
        rw [← he, ht] at hu
        exact absurd (Option.some.inj hu).symm hne
      · exact hu
  distinct := by
    rw [hr]
    exact (List.filter_sublist.map _).nodup h.distinct

theorem add (h : c.Sound) (ht : c.held? t = none) (hf : ¬ c.registered id = true)
    (ho : c'.closed = c.closed) {nickname : String}
    (hr : c'.register = ⟨id, t, nickname⟩ :: c.register)
    (hh : ∀ u, c'.held? u = if t = u then some id else c.held? u) : c'.Sound where
  isOpen := ho.trans h.isOpen
  held := by
    intro u i
    rw [hh, hr]
    constructor
    · intro hu
      split at hu
      · rename_i he
        exact ⟨_, List.mem_cons_self, he, Option.some.inj hu⟩
      · obtain ⟨r, hr, hro, hrs⟩ := h.held.1 hu
        exact ⟨r, List.mem_cons_of_mem _ hr, hro, hrs⟩
    · rintro ⟨r, hr, hro, hrs⟩
      rcases List.mem_cons.1 hr with rfl | hr
      · have he : t = u := hro
        rw [if_pos he]
        exact congrArg some hrs
      · have hu : c.held? u = some i := h.held.2 ⟨r, hr, hro, hrs⟩
        split
        · rename_i he
          rw [← he, ht] at hu
          cases hu
        · exact hu
  distinct := by
    rw [hr]
    refine List.nodup_cons.2 ⟨fun hm => hf ?_, h.distinct⟩
    obtain ⟨r, hr, hrs⟩ := List.mem_map.1 hm
    exact registered_iff.2 ⟨r, hr, hrs⟩

end Sound

theorem Sound.mem_owners (h : c.Sound) :
    t ∈ c.register.map Registration.owner ↔ ∃ id, c.held? t = some id := by
  rw [List.mem_map]
  constructor
  · rintro ⟨r, hr, rfl⟩
    exact ⟨r.state, h.held.2 ⟨r, hr, rfl, rfl⟩⟩
  · rintro ⟨id, hid⟩
    obtain ⟨r, hr, ho, -⟩ := h.held.1 hid
    exact ⟨r, hr, ho⟩

theorem Sound.owners_nodup (h : c.Sound) : (c.register.map Registration.owner).Nodup := by
  apply List.Nodup.map_on _ (List.Nodup.of_map _ h.distinct)
  intro r hr q hq he
  have hr' := h.held.2 ⟨r, hr, rfl, rfl⟩
  have hq' := h.held.2 ⟨q, hq, rfl, rfl⟩
  rw [he, hq'] at hr'
  exact List.inj_on_of_nodup_map h.distinct hr hq (Option.some.inj hr').symm

theorem flag_frame (rs : List Registration) (c : Custody) :
    let c' := rs.foldl (fun c r => c.setContext r.owner ⟨c.held? r.owner, true⟩) c
    c'.closed = c.closed ∧ c'.register = c.register ∧ ∀ u, c'.held? u = c.held? u := by
  induction rs generalizing c with
  | nil => exact ⟨rfl, rfl, fun _ => rfl⟩
  | cons r rs ih =>
    have hh : ∀ u, (c.setContext r.owner ⟨c.held? r.owner, true⟩).held? u = c.held? u :=
      held?_setContext_same rfl
    obtain ⟨h1, h2, h3⟩ := ih (c.setContext r.owner ⟨c.held? r.owner, true⟩)
    exact ⟨h1, h2, fun u => (h3 u).trans (hh u)⟩

theorem Sound.flagAll (h : c.Sound) : c.flagAll.Sound ∧ ∀ u, c.flagAll.held? u = c.held? u := by
  obtain ⟨h1, h2, h3⟩ := flag_frame c.register c
  exact ⟨h.same h1 h2 h3, h3⟩

end ScopedMethods.Custody
