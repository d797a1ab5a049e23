/-
**A shared object, one critical section at a time.**

Clients call a shared object.  A call is one critical section, or two: a first one that only looks,
and a second one that finishes the call with what the first has seen.  Between the two the others
may go on.  A history lists the sections in the order in which they got the object; the object goes
through the states that this order gives.

Two questions are asked of a history.  *Is it as if whole calls had been made, one after the other?*
It is, in the order in which the calls finish, when nobody disturbs a call between its two sections
— for instance when all calls that change what is looked at come from one client.  *Is it, for one
client, as if it had been alone?*  It is when the others keep what this client sees of the object.

Main definitions:

* `SharedObject.Sections` — an object and the sections of its calls;
* `SharedObject.Replays` — what a history makes of the object;
* `SharedObject.Undisturbed` — nobody disturbs a call between its sections;
* `SharedObject.own`, `SharedObject.callsOf` — the part of one client in a history.

Main results:

* `SharedObject.Replays.linearize` — **an undisturbed history is a sequence of whole calls**;
* `SharedObject.undisturbed_of_single` — one client that makes all the critical calls is never
  disturbed;
* `SharedObject.Replays.alone` — **a client whose view the others keep is alone with the object**.
-/

import Mathlib.Logic.Function.Basic
import Mathlib.Data.List.Induction

set_option relaxedAutoImplicit false
set_option autoImplicit false

namespace SharedObject

variable {ι σ Q R κ : Type}

/-! ### Calls and their sections -/

/-- An object whose calls take one section, or two of which the first changes nothing. -/
structure Sections (σ Q R κ : Type) where
  enter : Q → σ → (R × σ) ⊕ κ
  leave : κ → σ → R × σ

/-- A call with nothing between its sections. -/
def Sections.call (O : Sections σ Q R κ) (q : Q) (s : σ) : R × σ :=
  match O.enter q s with
  | .inl r => r
  | .inr k => O.leave k s

/-- A sequence of such calls. -/
def Sections.run (O : Sections σ Q R κ) : σ → List Q → List R × σ
  | s, [] => ([], s)
  | s, q :: qs =>
      let (r, s) := O.call q s
      let (rs, s) := Sections.run O s qs
      (r :: rs, s)

theorem Sections.run_append (O : Sections σ Q R κ) (s : σ) (qs qs' : List Q) :
    O.run s (qs ++ qs')
      = ((O.run s qs).1 ++ (O.run (O.run s qs).2 qs').1, (O.run (O.run s qs).2 qs').2) := by
  induction qs generalizing s with
  | nil => rfl
  | cons q qs ih => simp only [List.cons_append, Sections.run, ih]

/-- The last of a sequence of calls with given results. -/
theorem Sections.run_snoc (O : Sections σ Q R κ) {s s₂ : σ} {cs : List (Q × R)} {q : Q} {r : R} :
    O.run s ((cs ++ [(q, r)]).map Prod.fst) = ((cs ++ [(q, r)]).map Prod.snd, s₂) ↔
      ∃ s₁, O.run s (cs.map Prod.fst) = (cs.map Prod.snd, s₁) ∧ O.call q s₁ = (r, s₂) := by
  rw [List.map_append, List.map_append, Sections.run_append]
  simp only [List.map_cons, List.map_nil, Sections.run]
  constructor
  · intro h
    obtain ⟨hres, hstate⟩ := Prod.mk.inj h
    obtain ⟨hcs, hlast⟩ := List.append_inj' hres rfl
    exact ⟨_, Prod.ext hcs rfl, Prod.ext (List.cons.inj hlast).1 hstate⟩
  · rintro ⟨s₁, hrun, hcall⟩
    rw [hrun]
    simp only [hcall]

/-- Objects whose calls are the same have the same runs. -/
theorem Sections.run_congr {κ' : Type} {O : Sections σ Q R κ} {O' : Sections σ Q R κ'}
    (h : ∀ q s, O.call q s = O'.call q s) (s : σ) (qs : List Q) : O.run s qs = O'.run s qs := by
  induction qs generalizing s with
  | nil => rfl
  | cons q qs ih => simp only [Sections.run, h, ih]

/-- One section: a whole call, the first section of a call, or its second. -/
inductive Event (Q R κ : Type)
  | call (q : Q) (r : R)
  | enter (q : Q) (k : κ)
  | leave (q : Q) (k : κ) (r : R)
  deriving DecidableEq

/-- What the section does to the object. -/
def Sections.Takes (O : Sections σ Q R κ) : Event Q R κ → σ → σ → Prop
  | .call q r, s, s' => O.enter q s = .inl (r, s')
  | .enter q k, s, s' => O.enter q s = .inr k ∧ s' = s
  | .leave _ k r, s, s' => O.leave k s = (r, s')

/-- The call that ends with the section. -/
def Event.completes : Event Q R κ → Option (Q × R)
  | .call q r => some (q, r)
  | .enter _ _ => none
  | .leave q _ r => some (q, r)

/-- The call that begins with the section. -/
def Event.begins : Event Q R κ → Option Q
  | .call q _ => some q
  | .enter q _ => some q
  | .leave _ _ _ => none

/-- The call the client is in when the section is over. -/
def Event.leaves : Event Q R κ → Option (Q × κ)
  | .call _ _ => none
  | .enter q k => some (q, k)
  | .leave _ _ _ => none

/-- The client is between two sections, or not, as the section requires. -/
def Event.Follows : Event Q R κ → Option (Q × κ) → Prop
  | .call _ _, p => p = none
  | .enter _ _, p => p = none
  | .leave q k _, p => p = some (q, k)

/-! ### Histories -/

/-- The calls that end in a history, in this order. -/
def calls (h : List (ι × Event Q R κ)) : List (Q × R) := h.filterMap fun p => p.2.completes

theorem calls_snoc (h : List (ι × Event Q R κ)) (i : ι) (e : Event Q R κ) :
    calls (h ++ [(i, e)]) = calls h ++ e.completes.toList := by
  unfold calls
  rw [List.filterMap_append, List.filterMap_cons]
  cases e.completes <;> rfl

variable [DecidableEq ι]

/-- The calls that are between their two sections. -/
def underway (h : List (ι × Event Q R κ)) : ι → Option (Q × κ) :=
  h.foldl (fun p x =>
    match x.2 with
    | .call _ _ => p
    | .enter q k => Function.update p x.1 (some (q, k))
    | .leave _ _ _ => Function.update p x.1 none) fun _ => none

/-- The sections of one client. -/
def own (i : ι) (h : List (ι × Event Q R κ)) : List (ι × Event Q R κ) := h.filter fun p => p.1 = i

/-- The calls of one client. -/
def callsOf (i : ι) (h : List (ι × Event Q R κ)) : List (Q × R) := calls (own i h)

/-- The calls that one client has begun. -/
def begun (i : ι) (h : List (ι × Event Q R κ)) : List Q :=
  (callsOf i h).map Prod.fst ++ ((underway h i).map Prod.fst).toList

/-- The object goes through the history. -/
inductive Replays (O : Sections σ Q R κ) (s : σ) : List (ι × Event Q R κ) → σ → Prop
  | nil : Replays O s [] s
  | snoc {h : List (ι × Event Q R κ)} {s₁ s₂ : σ} {i : ι} {e : Event Q R κ} :
      Replays O s h s₁ → e.Follows (underway h i) → O.Takes e s₁ s₂ →
        Replays O s (h ++ [(i, e)]) s₂

section History

variable (h : List (ι × Event Q R κ)) (i j : ι)

@[simp] theorem underway_nil : underway ([] : List (ι × Event Q R κ)) i = none := rfl

@[simp] theorem underway_call (q : Q) (r : R) :
    underway (h ++ [(j, .call q r)]) i = underway h i := by
  simp [underway]

theorem underway_enter (q : Q) (k : κ) :
    underway (h ++ [(j, .enter q k)]) i = if i = j then some (q, k) else underway h i := by
  simp [underway, Function.update_apply]

theorem underway_leave (q : Q) (k : κ) (r : R) :
    underway (h ++ [(j, .leave q k r)]) i = if i = j then none else underway h i := by
  simp [underway, Function.update_apply]

/-- A section takes its client where it leads. -/
theorem underway_snoc_self {e : Event Q R κ} (hfol : e.Follows (underway h i)) :
    underway (h ++ [(i, e)]) i = e.leaves := by
  cases e with
  | call q r =>
      rw [underway_call]
      exact hfol
  | enter q k => rw [underway_enter, if_pos rfl, Event.leaves]
  | leave q k r => rw [underway_leave, if_pos rfl, Event.leaves]

/-- The sections of others leave a client where it is. -/
theorem underway_snoc_of_ne {i j : ι} (hij : i ≠ j) (e : Event Q R κ) :
    underway (h ++ [(j, e)]) i = underway h i := by
  cases e with
  | call q r => exact underway_call h i j q r
  | enter q k => rw [underway_enter, if_neg hij]
  | leave q k r => rw [underway_leave, if_neg hij]

theorem own_snoc_self (e : Event Q R κ) : own i (h ++ [(i, e)]) = own i h ++ [(i, e)] := by
  simp [own]

theorem own_snoc_of_ne {i j : ι} (hij : i ≠ j) (e : Event Q R κ) :
    own i (h ++ [(j, e)]) = own i h := by
  simp [own, Ne.symm hij]

theorem callsOf_snoc_self (e : Event Q R κ) :
    callsOf i (h ++ [(i, e)]) = callsOf i h ++ e.completes.toList := by
  rw [callsOf, own_snoc_self, calls_snoc, callsOf]

theorem callsOf_snoc_of_ne {i j : ι} (hij : i ≠ j) (e : Event Q R κ) :
    callsOf i (h ++ [(j, e)]) = callsOf i h := by
  rw [callsOf, own_snoc_of_ne h hij, callsOf]

theorem begun_snoc_self {e : Event Q R κ} (hfol : e.Follows (underway h i)) :
    begun i (h ++ [(i, e)]) = begun i h ++ e.begins.toList := by
  unfold begun
  rw [callsOf_snoc_self, underway_snoc_self h i hfol]
  cases e with
  | call q r =>
      have hp : underway h i = none := hfol
      simp [hp, Event.completes, Event.leaves, Event.begins]
  | enter q k =>
      have hp : underway h i = none := hfol
      simp [hp, Event.completes, Event.leaves, Event.begins]
  | leave q k r =>
      have hp : underway h i = some (q, k) := hfol
      simp [hp, Event.completes, Event.leaves, Event.begins]

theorem begun_snoc_of_ne {i j : ι} (hij : i ≠ j) (e : Event Q R κ) :
    begun i (h ++ [(j, e)]) = begun i h := by
  rw [begun, callsOf_snoc_of_ne h hij, underway_snoc_of_ne h hij, begun]

/-- Where a client stands can be read off its own sections. -/
theorem underway_own : underway (own i h) i = underway h i := by
  induction h using List.reverseRecOn with
  | nil => rfl
  | append_singleton h x ih =>
      obtain ⟨j, e⟩ := x
      by_cases hij : i = j
      · subst hij
        rw [own_snoc_self]
        cases e with
        | call q r => rw [underway_call, underway_call, ih]
        | enter q k => rw [underway_enter, underway_enter, if_pos rfl, if_pos rfl]
        | leave q k r => rw [underway_leave, underway_leave, if_pos rfl, if_pos rfl]
      · rw [own_snoc_of_ne h hij, underway_snoc_of_ne h hij, ih]

/-- A call between its sections has had its first. -/
theorem mem_of_underway {q : Q} {k : κ} (hp : underway h i = some (q, k)) :
    (i, Event.enter q k) ∈ h := by
  induction h using List.reverseRecOn with
  | nil => cases hp
  | append_singleton h x ih =>
      obtain ⟨j, e⟩ := x
      by_cases hij : i = j
      · subst hij
        cases e with
        | call q' r =>
            rw [underway_call] at hp
            exact List.mem_append_left _ (ih hp)
        | enter q' k' =>
            rw [underway_enter, if_pos rfl] at hp
            cases hp
            exact List.mem_append_right _ (List.mem_singleton.2 rfl)
        | leave q' k' r =>
            rw [underway_leave, if_pos rfl] at hp
            cases hp
      · rw [underway_snoc_of_ne h hij] at hp
        exact List.mem_append_left _ (ih hp)

end History

/-- Every section is part of a call that its client has begun, and a second section of one whose
first is in the history. -/
theorem Replays.mem_begun {O : Sections σ Q R κ} {s s' : σ} {h : List (ι × Event Q R κ)}
    (hrep : Replays O s h s') {i : ι} {e : Event Q R κ} (hm : (i, e) ∈ h) :
    (∀ q, e.begins = some q → q ∈ begun i h) ∧
      ∀ q k r, e = .leave q k r → (i, Event.enter q k) ∈ h := by
  induction hrep with
  | nil => cases hm
  | @snoc h s₁ s₂ j e' hrep hfol htake ih =>
      rcases List.mem_append.1 hm with hold | hnew
      · obtain ⟨hbegins, hleave⟩ := ih hold
        refine ⟨?_, fun q k r he => List.mem_append_left _ (hleave q k r he)⟩
        intro q hq
        by_cases hij : i = j
        · subst hij
          rw [begun_snoc_self h i hfol]
          exact List.mem_append_left _ (hbegins q hq)
        · rw [begun_snoc_of_ne h hij]
          exact hbegins q hq
      · obtain ⟨rfl, rfl⟩ := Prod.mk.inj (List.mem_singleton.1 hnew)
        refine ⟨?_, ?_⟩
        · intro q hq
          rw [begun_snoc_self h i hfol, hq]
          exact List.mem_append_right _ (List.mem_singleton.2 rfl)
        · rintro q k r rfl
          exact List.mem_append_left _ (mem_of_underway h i hfol)

/-- A first section went the way the object let it go. -/
theorem Replays.enter_eq {O : Sections σ Q R κ} {s s' : σ} {h : List (ι × Event Q R κ)}
    (hrep : Replays O s h s') {i : ι} {q : Q} {k : κ} (hm : (i, Event.enter q k) ∈ h) :
    ∃ s₀, O.enter q s₀ = .inr k := by
  induction hrep with
  | nil => cases hm
  | @snoc h s₁ s₂ j e hrep hfol htake ih =>
      rcases List.mem_append.1 hm with hold | hnew
      · exact ih hold
      · obtain ⟨rfl, rfl⟩ := Prod.mk.inj (List.mem_singleton.1 hnew)
        exact ⟨s₁, htake.1⟩

/-! ### Whole calls -/

/-- Nobody disturbs a call of another client between its sections: `Quiet e q` says that the section
`e` does not disturb the call `q`. -/
def Undisturbed (Quiet : Event Q R κ → Q → Prop) (h : List (ι × Event Q R κ)) : Prop :=
  ∀ a b i e, h = a ++ (i, e) :: b → ∀ j q k, j ≠ i → underway a j = some (q, k) → Quiet e q

theorem Undisturbed.of_snoc {Quiet : Event Q R κ → Q → Prop} {h : List (ι × Event Q R κ)}
    {x : ι × Event Q R κ} (hu : Undisturbed Quiet (h ++ [x])) : Undisturbed Quiet h := by
  intro a b i e heq j q k hne hp
  refine hu a (b ++ [x]) i e ?_ j q k hne hp
  rw [heq, List.append_assoc, List.cons_append]

/-- **One client that makes all the critical calls is never disturbed**: the calls of two sections,
and the sections that could disturb one. -/
theorem undisturbed_of_single {Quiet : Event Q R κ → Q → Prop} {h : List (ι × Event Q R κ)} (w : ι)
    (henter : ∀ i q k, (i, Event.enter q k) ∈ h → i = w)
    (hquiet : ∀ i e q, (i, e) ∈ h → ¬ Quiet e q → i = w) : Undisturbed Quiet h := by
  intro a b i e heq j q k hne hp
  by_contra hcon
  have hmem : (i, e) ∈ h := by
    rw [heq]
    exact List.mem_append_right _ List.mem_cons_self
  have hj : (j, Event.enter q k) ∈ h := by
    rw [heq]
    exact List.mem_append_left _ (mem_of_underway a j hp)
  exact hne ((henter j q k hj).trans (hquiet i e q hmem hcon).symm)

section Linearize

variable {O : Sections σ Q R κ} {Quiet : Event Q R κ → Q → Prop}

/-- **An undisturbed history is a sequence of whole calls**, in the order in which they finish.  A
call between its sections would see the same if it came in now: this is what carries the
induction. -/
theorem Replays.linearize
    (hquiet : ∀ e q k s s', Quiet e q → O.Takes e s s' → O.enter q s = .inr k →
      O.enter q s' = .inr k)
    {s s' : σ} {h : List (ι × Event Q R κ)} (hrep : Replays O s h s')
    (hu : Undisturbed Quiet h) :
    O.run s ((calls h).map Prod.fst) = ((calls h).map Prod.snd, s') ∧
      ∀ i q k, underway h i = some (q, k) → O.enter q s' = .inr k := by
  induction hrep with
  | nil =>
      refine ⟨rfl, ?_⟩
      intro i q k hp
      cases hp
  | @snoc h s₁ s₂ i e hrep hfol htake ih =>
      obtain ⟨hrun, hpend⟩ := ih hu.of_snoc
      -- the other clients are not disturbed
      have hother : ∀ j q k, j ≠ i → underway h j = some (q, k) → O.enter q s₂ = .inr k := by
        intro j q k hne hp
        exact hquiet e q k s₁ s₂ (hu h [] i e rfl j q k hne hp) htake (hpend j q k hp)
      rw [calls_snoc]
      cases e with
      | call q r =>
          have hcall : O.call q s₁ = (r, s₂) := by
            rw [Sections.call, htake]
          refine ⟨O.run_snoc.2 ⟨s₁, hrun, hcall⟩, ?_⟩
          intro j q' k hp
          rw [underway_call] at hp
          by_cases hji : j = i
          · subst hji
            rw [hfol] at hp
            cases hp
          · exact hother j q' k hji hp
      | enter q k =>
          obtain ⟨henter, rfl⟩ := htake
          refine ⟨by simpa [Event.completes] using hrun, ?_⟩
          intro j q' k' hp
          rw [underway_enter] at hp
          by_cases hji : j = i
          · rw [if_pos hji] at hp
            cases hp
            exact henter
          · rw [if_neg hji] at hp
            exact hother j q' k' hji hp
      | leave q k r =>
          have hcall : O.call q s₁ = (r, s₂) := by
            rw [Sections.call, hpend i q k hfol]
            exact htake
          refine ⟨O.run_snoc.2 ⟨s₁, hrun, hcall⟩, ?_⟩
          intro j q' k' hp
          rw [underway_leave] at hp
          by_cases hji : j = i
          · rw [if_pos hji] at hp
            cases hp
          · rw [if_neg hji] at hp
            exact hother j q' k' hji hp

end Linearize

/-! ### One client alone -/

/-- What a client sees of the object decides its calls: on two objects with the same view they go
the same way. -/
structure Respects {V : Type} (O : Sections σ Q R κ) (view : σ → V) (q : Q) : Prop where
  call : ∀ {s t : σ} {r : R} {s' : σ}, view s = view t → O.enter q s = .inl (r, s') →
    ∃ t', O.enter q t = .inl (r, t') ∧ view s' = view t'
  enter : ∀ {s t : σ} {k : κ}, view s = view t → O.enter q s = .inr k → O.enter q t = .inr k
  leave : ∀ {s₀ s t : σ} {k : κ}, O.enter q s₀ = .inr k → view s = view t →
    (O.leave k s).1 = (O.leave k t).1 ∧ view (O.leave k s).2 = view (O.leave k t).2

/-- **A client whose view the others keep is alone with the object**: its own sections, without
those of the others, are a history too, and end with the same view. -/
theorem Replays.alone {V : Type} {O : Sections σ Q R κ} (view : σ → V) (i : ι) {s s' : σ}
    {h : List (ι × Event Q R κ)} (hrep : Replays O s h s')
    (hothers : ∀ j e, (j, e) ∈ h → j ≠ i → ∀ s₁ s₂, O.Takes e s₁ s₂ → view s₂ = view s₁)
    (hcall : ∀ q r, (i, Event.call q r) ∈ h → Respects O view q)
    (henter : ∀ q k, (i, Event.enter q k) ∈ h → Respects O view q) :
    ∃ t, Replays O s (own i h) t ∧ view s' = view t := by
  induction hrep with
  | nil => exact ⟨s, .nil, rfl⟩
  | @snoc h s₁ s₂ j e hrep hfol htake ih =>
      obtain ⟨t, ht, hview⟩ := ih
        (fun j' e' hm hne => hothers j' e' (List.mem_append_left _ hm) hne)
        (fun q r hm => hcall q r (List.mem_append_left _ hm))
        (fun q k hm => henter q k (List.mem_append_left _ hm))
      have hlast : (j, e) ∈ h ++ [(j, e)] := List.mem_append_right _ (List.mem_singleton.2 rfl)
      by_cases hij : i = j
      · subst hij
        rw [own_snoc_self]
        rw [← underway_own] at hfol
        cases e with
        | call q r =>
            obtain ⟨t', htake', hview'⟩ := (hcall q r hlast).call hview htake
            exact ⟨t', ht.snoc hfol htake', hview'⟩
        | enter q k =>
            obtain ⟨hin, rfl⟩ := htake
            exact ⟨t, ht.snoc hfol ⟨(henter q k hlast).enter hview hin, rfl⟩, hview⟩
        | leave q k r =>
            have hp : underway h i = some (q, k) := by
              rw [← underway_own]
              exact hfol
            have hin := mem_of_underway h i hp
            obtain ⟨s₀, hs₀⟩ := hrep.enter_eq hin
            have hresp := henter q k (List.mem_append_left _ hin)
            obtain ⟨hres, hview'⟩ := hresp.leave hs₀ hview
            have hleave : O.leave k s₁ = (r, s₂) := htake
            rw [hleave] at hres hview'
            refine ⟨(O.leave k t).2, ht.snoc hfol ?_, hview'⟩
            exact Prod.ext hres.symm rfl
      · rw [own_snoc_of_ne h hij]
        exact ⟨t, ht, (hothers j e hlast (Ne.symm hij) s₁ s₂ htake).trans hview⟩

/-- The sections of a single client are undisturbed. -/
theorem undisturbed_own (Quiet : Event Q R κ → Q → Prop) (i : ι) (h : List (ι × Event Q R κ)) :
    Undisturbed Quiet (own i h) := by
  refine undisturbed_of_single i ?_ ?_
  · intro j q k hm
    simpa using (List.mem_filter.1 hm).2
  · intro j e q hm _
    simpa using (List.mem_filter.1 hm).2

end SharedObject
