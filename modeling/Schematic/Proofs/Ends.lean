import Mathlib
import Schematic.Proofs.Soundness

/-!
# Computations that raise at most the recursion limit

`Ends m s Q` says that `m`, run from `s`, raises nothing but `recursionLimit`, leaves a store
grown from `s`, and, when it answers `a` leaving `t`, that `Q a t` holds. It is a predicate
transformer in the style of a weakest precondition: `Ends.bind` reduces a `do` block to its
first step, with the rest of the block as the postcondition, and each store operation has its
own rule.

The module ends with the first use of the calculus: building a check from a sound tag
(`Build.factory_ends`) raises at most the recursion limit, builds a fresh tree of checks
described by `Store.Built`, and changes no check that existed.
-/

namespace Schematic

/-- Run from `s`, `m` raises at most the recursion limit, grows the store, and establishes
`Q` of its answer and the store it leaves. -/
def Ends {α : Type} (m : Run α) (s : Store) (Q : α → Store → Prop) : Prop :=
  s.Grows (m.run.run s).2 ∧
    ((m.run.run s).1 = .error .recursionLimit ∨ ∃ a, (m.run.run s).1 = .ok a ∧ Q a (m.run.run s).2)

namespace Ends

variable {α β : Type} {s : Store} {Q : α → Store → Prop}

theorem of_run {m : Run α} {a : α} {t : Store} (h : m.run.run s = (.ok a, t)) (hg : s.Grows t)
    (hq : Q a t) : Ends m s Q := by
  refine ⟨?_, .inr ⟨a, ?_, ?_⟩⟩ <;> simp [h, hg, hq]

theorem limit_of_run {m : Run α} {t : Store} (h : m.run.run s = (.error .recursionLimit, t))
    (hg : s.Grows t) : Ends m s Q :=
  ⟨by simp [h, hg], .inl (by simp [h])⟩

theorem pure {a : α} (h : Q a s) : Ends (pure a) s Q := of_run rfl (.refl s) h

theorem limit : Ends (throw .recursionLimit : Run α) s Q := limit_of_run rfl (.refl s)

theorem mono {m : Run α} {P : α → Store → Prop} (h : Ends m s P)
    (hpq : ∀ a t, s.Grows t → P a t → Q a t) : Ends m s Q := by
  obtain ⟨hg, hr | ⟨a, ha, hp⟩⟩ := h
  · exact ⟨hg, .inl hr⟩
  · exact ⟨hg, .inr ⟨a, ha, hpq a _ hg hp⟩⟩

/-- The rule for sequencing: the rest of the block must end from wherever the first step
leaves the store. -/
theorem bind {x : Run α} {f : α → Run β} {Q : β → Store → Prop}
    (h : Ends x s fun a t => Ends (f a) t Q) : Ends (x >>= f) s Q := by
  obtain ⟨hg, hr⟩ := h
  rw [Ends, Run.run_bind]
  rcases hx : x.run.run s with ⟨r, t⟩
  rw [hx] at hg hr
  rcases hr with hr | ⟨a, ha, hf⟩
  · cases hr
    exact ⟨hg, .inl rfl⟩
  · cases ha
    exact ⟨hg.trans hf.1, hf.2⟩

theorem map {x : Run α} {f : α → β} {Q : β → Store → Prop}
    (h : Ends x s fun a t => Q (f a) t) : Ends (f <$> x) s Q := by
  rw [← bind_pure_comp]
  exact bind (h.mono fun a t _ hq => pure hq)

theorem read {f : Store → α} (h : Q (f s) s) : Ends (Store.read f) s Q := of_run rfl (.refl s) h

theorem change {f : Store → Store} {Q : Unit → Store → Prop} (hg : s.Grows (f s))
    (h : Q () (f s)) : Ends (Store.change f) s Q := of_run rfl hg h

theorem lift {r : Except Fault α} {a : α} (hr : r = .ok a) (h : Q a s) : Ends (Rule.lift r) s Q := by
  subst hr
  exact pure h

theorem addCheck {c : Check} {Q : Nat → Store → Prop}
    (h : Q s.checks.size { s with checks := s.checks.push c }) : Ends (Store.addCheck c) s Q :=
  of_run rfl (Store.grows_push_check s c) h

theorem addContext {c : Context} {Q : Nat → Store → Prop}
    (h : Q s.contexts.size { s with contexts := s.contexts.push c }) :
    Ends (Store.addContext c) s Q :=
  of_run rfl (Store.grows_push_context s c) h

/-- A computation that only grows the store and answers, ends. -/
theorem of_growing {m : Run α} [hm : Growing m] {a : α} (ha : (m.run.run s).1 = .ok a)
    (h : Q a (m.run.run s).2) : Ends m s Q :=
  ⟨hm.grows s, .inr ⟨a, ha, h⟩⟩

/-- The rule for catching: an error the handler sees, it must end from. -/
theorem tryCatch {x : Run α} {h : Fault → Run α} {r : Except Fault α} {t : Store}
    (hx : x.run.run s = (r, t)) (hg : s.Grows t) (hok : ∀ a, r = .ok a → Q a t)
    (herr : ∀ e, r = .error e → Ends (h e) t Q) : Ends (tryCatch x h) s Q := by
  cases r with
  | ok a => exact of_run (by rw [Run.run_tryCatch, hx]) hg (hok a rfl)
  | error e =>
    obtain ⟨hg', hr⟩ := herr e rfl
    refine ⟨?_, ?_⟩ <;> rw [Run.run_tryCatch, hx]
    · exact hg.trans hg'
    · exact hr

/-- The two branches of an `if` that share their continuation: each first step establishes
`P`, from which the continuation ends. -/
theorem ite_bind {c : Prop} [Decidable c] {x y : Run α} {J : α → Run β} {Q : β → Store → Prop}
    (P : α → Store → Prop) (hx : c → Ends x s P) (hy : ¬c → Ends y s P)
    (hJ : ∀ a t, s.Grows t → P a t → Ends (J a) t Q) :
    Ends (if c then x >>= J else y >>= J) s Q := by
  split
  · exact bind ((hx ‹_›).mono hJ)
  · exact bind ((hy ‹_›).mono hJ)

end Ends


/-! ### Building a check -/

namespace Build

/-- Building for `tag` after `tagCheck` built its check `b`: `rule` wraps it, and the tree stays
fresh and leaves the older checks alone. -/
theorem factory_ends_of {fuel : Nat}
    (h : ∀ tag field spec owner (s : Store), TagSound s spec tag →
      Ends (tagCheck fuel tag field spec owner) s
        fun b t => t.Built s.checks.size b spec none tag ∧ s.KeepsChecks t)
    (tag : Tag) (field : Option String) (spec : Spec) (owner : Option Nat) (rule : Option Value)
    (s : Store) (htag : TagSound s spec tag) :
    Ends (factory fuel tag field spec owner rule) s
      fun b t => t.Built s.checks.size b spec rule tag ∧ s.KeepsChecks t := by
  rw [factory]
  refine Ends.bind ((h tag field spec owner s htag).mono fun b t hg hb => ?_)
  obtain ⟨hb, hk⟩ := hb
  cases rule with
  | none => exact Ends.pure ⟨hb, hk⟩
  | some r =>
    refine Ends.addCheck ⟨.custom (Array.getElem?_push_size) ?_ (hb.mono (Store.grows_push_check t _)),
      hk.trans (Store.keepsChecks_push t _)⟩
    exact hg.checks_size

/-- The candidates of a union, each built with its own spec and rule. -/
theorem candidateChecks_ends_of {fuel : Nat}
    (h : ∀ tag field spec owner rule (s : Store), TagSound s spec tag →
      Ends (factory fuel tag field spec owner rule) s
        fun b t => t.Built s.checks.size b spec rule tag ∧ s.KeepsChecks t)
    (field : Option String) (owner : Option Nat) :
    ∀ (specs : List Spec) (s : Store), (∀ c ∈ specs, TagSound s c c.type) →
      Ends (candidateChecks fuel specs field owner) s fun cs t => cs.length = specs.length ∧
        (∀ x ∈ specs.zip cs, t.Built s.checks.size x.2.2 x.1 x.1.custom x.1.type) ∧
        s.KeepsChecks t
  | [], s, _ => by
    rw [candidateChecks]
    exact Ends.pure ⟨rfl, by simp, .refl s⟩
  | c :: rest, s, hcs => by
    rw [candidateChecks]
    refine Ends.bind ((h c.type field c owner c.custom s (hcs c (by simp))).mono
      fun n t hg hn => ?_)
    obtain ⟨hn, hk⟩ := hn
    have hrest : ∀ c' ∈ rest, TagSound t c' c'.type :=
      fun c' hc' => (hcs c' (by simp [hc'])).mono hg
    refine Ends.bind ((candidateChecks_ends_of h field owner rest t hrest).mono
      fun cs u hg' hcs' => ?_)
    obtain ⟨hlen, hbs, hk'⟩ := hcs'
    refine Ends.pure ⟨by simp [hlen], fun x hx => ?_, hk.trans hk'⟩
    -- the first candidate was built before the rest, the rest above `t`'s checks
    rcases List.mem_cons.mp (by simpa using hx) with rfl | hx
    · exact hn.mono hg'
    · exact (hbs x hx).weaken hg.checks_size

/-- One level of building, from the levels below. -/
theorem tagCheck_succ_ends {fuel : Nat}
    (hf : ∀ tag field spec owner rule (s : Store), TagSound s spec tag →
      Ends (factory fuel tag field spec owner rule) s
        fun b t => t.Built s.checks.size b spec rule tag ∧ s.KeepsChecks t)
    (tag : Tag) (field : Option String) (spec : Spec) (owner : Option Nat) (s : Store)
    (htag : TagSound s spec tag) :
    Ends (tagCheck (fuel + 1) tag field spec owner) s
      fun b t => t.Built s.checks.size b spec none tag ∧ s.KeepsChecks t := by
  have hpush : ∀ (t : Store) (c : Check), s.KeepsChecks t →
      s.KeepsChecks { t with checks := t.checks.push c } :=
    fun t c hk => hk.trans (Store.keepsChecks_push t c)
  cases tag with
  | primitive p =>
    simp only [tagCheck]
    split_ifs
    · exact Ends.addCheck ⟨.member Array.getElem?_push_size le_rfl, hpush s _ (.refl s)⟩
    · exact Ends.addCheck ⟨.bounded Array.getElem?_push_size le_rfl, hpush s _ (.refl s)⟩
  | any =>
    simp only [tagCheck]
    exact Ends.addCheck ⟨.pass Array.getElem?_push_size le_rfl, hpush s _ (.refl s)⟩
  | anyOf id =>
    obtain ⟨u, hu, hcs⟩ := tagSound_anyOf.mp htag
    simp only [tagCheck]
    refine Ends.bind (Ends.read ?_)
    rw [Store.at!_of_getElem? hu]
    refine Ends.bind ((candidateChecks_ends_of hf field owner u.candidates s
      fun c hc => (hcs c hc).1).mono fun cs t hg hcands => ?_)
    obtain ⟨hlen, hbs, hk⟩ := hcands
    exact Ends.addCheck ⟨.union Array.getElem?_push_size hg.checks_size (hg.unions id u hu) hlen
      fun x hx => (hbs x hx).mono (Store.grows_push_check t _), hpush t _ hk⟩
  | arrayOf id =>
    obtain ⟨a, ha, he⟩ := tagSound_arrayOf.mp htag
    simp only [tagCheck]
    refine Ends.bind (Ends.read ?_)
    rw [Store.at!_of_getElem? ha]
    refine Ends.bind ((hf a.element field spec owner none s he).mono fun e t hg he' => ?_)
    obtain ⟨he', hk⟩ := he'
    exact Ends.addCheck ⟨.array Array.getElem?_push_size hg.checks_size (hg.arrays id a ha)
      (he'.mono (Store.grows_push_check t _)), hpush t _ hk⟩
  | schema sid =>
    simp only [tagCheck, Context.create]
    refine Ends.bind (Ends.addContext ?_)
    exact Ends.addCheck ⟨.nested Array.getElem?_push_size le_rfl ⟨{ schema := sid }, by simp, rfl⟩,
      hpush _ _ (fun _ _ h => h)⟩
  | lazy lid =>
    simp only [tagCheck]
    exact Ends.addCheck ⟨.lazy Array.getElem?_push_size le_rfl, hpush s _ (.refl s)⟩

/-- **Building a check from a sound tag** raises at most the recursion limit, builds a fresh
tree of checks for the tag, and changes no check that existed. -/
theorem factory_ends (fuel : Nat) (tag : Tag) (field : Option String) (spec : Spec)
    (owner : Option Nat) (rule : Option Value) (s : Store) (htag : TagSound s spec tag) :
    Ends (factory fuel tag field spec owner rule) s
      fun b t => t.Built s.checks.size b spec rule tag ∧ s.KeepsChecks t := by
  induction fuel generalizing tag field spec owner rule s with
  | zero =>
    refine factory_ends_of (fun tag field spec owner s _ => ?_) tag field spec owner rule s htag
    rw [tagCheck]
    exact Ends.limit
  | succ fuel ih =>
    exact factory_ends_of (tagCheck_succ_ends ih) tag field spec owner rule s htag

end Build

end Schematic
