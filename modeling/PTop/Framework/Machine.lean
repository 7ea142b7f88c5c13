import Mathlib.Data.List.DropRight
import Mathlib.Data.List.Forall2
import Mathlib.Data.List.Induction
import Mathlib.Logic.Relation

/-!
# Runs of a machine with inputs and outputs

A machine consumes an input in each step, changes its state and emits an output.
A run is kept as the list of its transitions, oldest first, so that a statement
about a step can speak of everything that happened before it.
-/

namespace PTop.Framework

variable {σ ι ω ε : Type*}

/-- One step of a run. -/
structure Transition (σ ι ω : Type*) where
  pre : σ
  input : ι
  post : σ
  output : ω

/-- Runs from a start state; the last argument is the state reached. -/
inductive Run (step : ι → σ → σ → ω → Prop) (s₀ : σ) : List (Transition σ ι ω) → σ → Prop where
  | init : Run step s₀ [] s₀
  | step {cs s i s' o} (h : Run step s₀ cs s) (hs : step i s s' o) :
      Run step s₀ (cs ++ [⟨s, i, s', o⟩]) s'

namespace Run

variable {step : ι → σ → σ → ω → Prop} {s₀ s : σ} {cs : List (Transition σ ι ω)}

/-- A run that is not empty ends with a step. -/
theorem snoc_inv {c : Transition σ ι ω} (h : Run step s₀ (cs ++ [c]) s) :
    Run step s₀ cs c.pre ∧ step c.input c.pre c.post c.output ∧ s = c.post := by
  generalize hds : cs ++ [c] = ds at h
  cases h with
  | init => simp at hds
  | step h hs =>
      obtain ⟨rfl, hc⟩ := List.append_inj' hds rfl
      cases List.singleton_inj.mp hc
      exact ⟨h, hs, rfl⟩

/-- A run without steps stays where it starts. -/
theorem nil_inv (h : Run step s₀ [] s) : s = s₀ := by
  generalize hds : [] = ds at h
  cases h with
  | init => rfl
  | step _ _ => simp at hds

/-- The transitions of a run name the state it reaches. -/
theorem state_unique {t : σ} (h : Run step s₀ cs s) (h' : Run step s₀ cs t) : s = t := by
  induction cs using List.reverseRecOn with
  | nil => rw [nil_inv h, nil_inv h']
  | append_singleton cs c _ => exact (snoc_inv h).2.2.trans (snoc_inv h').2.2.symm

/-- Every initial part of a run is a run. -/
theorem of_append {ds : List (Transition σ ι ω)} (h : Run step s₀ (cs ++ ds) s) :
    ∃ t, Run step s₀ cs t := by
  induction ds using List.reverseRecOn generalizing s with
  | nil => exact ⟨s, by simpa using h⟩
  | append_singleton ds d ih =>
      rw [← List.append_assoc] at h
      exact ih (snoc_inv h).1

theorem up_to {before after : List (Transition σ ι ω)} {c : Transition σ ι ω}
    (h : Run step s₀ (before ++ c :: after) s) : Run step s₀ (before ++ [c]) c.post := by
  rw [List.append_cons] at h
  obtain ⟨t, ht⟩ := of_append h
  obtain ⟨-, -, rfl⟩ := snoc_inv ht
  exact ht

/-- **Every step of a run follows a run.** -/
theorem at_step {before after : List (Transition σ ι ω)} {c : Transition σ ι ω}
    (h : Run step s₀ (before ++ c :: after) s) :
    Run step s₀ before c.pre ∧ step c.input c.pre c.post c.output := by
  obtain ⟨hrun, hstep, -⟩ := snoc_inv h.up_to
  exact ⟨hrun, hstep⟩

/-- The transitions and the state reached name the start. -/
theorem start_unique {t₀ : σ} (h : Run step s₀ cs s) (h' : Run step t₀ cs s) : s₀ = t₀ := by
  cases cs with
  | nil => rw [← nil_inv h, ← nil_inv h']
  | cons c cs =>
      have hpre := (at_step (List.nil_append (c :: cs) ▸ h)).1
      have hpre' := (at_step (List.nil_append (c :: cs) ▸ h')).1
      rw [← nil_inv hpre, ← nil_inv hpre']

/-- **The invariant rule.** -/
theorem invariant {P : σ → Prop} (h : Run step s₀ cs s) (h₀ : P s₀)
    (hstep : ∀ {i s s' o}, P s → step i s s' o → P s') : P s := by
  induction h with
  | init => exact h₀
  | step _ hs ih => exact hstep ih hs

/-- **A run seen through a projection** that the steps respect. -/
theorem project {σ' ι' ω' : Type*} {step' : ι' → σ' → σ' → ω' → Prop} (f : ι → ι') (g : σ → σ')
    (k : ω → ω') (hstep : ∀ {i s s' o}, step i s s' o → step' (f i) (g s) (g s') (k o))
    (h : Run step s₀ cs s) :
    Run step' (g s₀) (cs.map fun c => ⟨g c.pre, f c.input, g c.post, k c.output⟩) (g s) := by
  induction h with
  | init => exact .init
  | step _ hs ih =>
      rw [List.map_append, List.map_singleton]
      exact ih.step (hstep hs)

end Run

/-! ## Histories -/

/-- Every element of a history is related to the part before it. -/
def EachAfter {α : Type*} (P : List α → α → Prop) (xs : List α) : Prop :=
  ∀ before x after, xs = before ++ x :: after → P before x

theorem EachAfter.of_append {α : Type*} {P : List α → α → Prop} {xs ys : List α}
    (h : EachAfter P (xs ++ ys)) : EachAfter P xs := by
  rintro before x after rfl
  refine h before x (after ++ ys) ?_
  rw [List.append_assoc, List.cons_append]

theorem eachAfter_snoc {α : Type*} {P : List α → α → Prop} {xs : List α} {x : α} :
    EachAfter P (xs ++ [x]) ↔ EachAfter P xs ∧ P xs x := by
  constructor
  · intro h
    refine ⟨fun before y after hxs => h before y (after ++ [x]) ?_, h xs x [] rfl⟩
    rw [hxs, List.append_assoc, List.cons_append]
  · rintro ⟨h, hx⟩ before y after hxs
    induction after using List.reverseRecOn with
    | nil =>
        obtain ⟨rfl, hy⟩ := List.append_inj' hxs rfl
        cases hy
        exact hx
    | append_singleton after z _ =>
        rw [← List.cons_append, ← List.append_assoc] at hxs
        exact h before y after (List.append_inj' hxs rfl).1

theorem eachAfter_map {α β : Type*} {P : List β → β → Prop} (f : α → β) {xs : List α} :
    EachAfter P (xs.map f) ↔ EachAfter (fun before x => P (before.map f) (f x)) xs := by
  induction xs using List.reverseRecOn with
  | nil => simp [EachAfter]
  | append_singleton xs x ih =>
      rw [List.map_append, List.map_singleton, eachAfter_snoc, eachAfter_snoc, ih]

theorem eachAfter_iff_take {α : Type*} {P : List α → α → Prop} {xs : List α} :
    EachAfter P xs ↔ ∀ i : Fin xs.length, P (xs.take i) xs[i] := by
  constructor
  · intro h i
    refine h (xs.take i) xs[i] (xs.drop (i + 1)) ?_
    simp
  · rintro h before x after rfl
    have hx := h ⟨before.length, by simp⟩
    simpa using hx

/-- What is left of a history when its end is dropped. -/
theorem length_rdropWhile_concat {α : Type*} (p : α → Bool) (xs : List α) (x : α) :
    ((xs ++ [x]).rdropWhile p).length =
      if p x then (xs.rdropWhile p).length else xs.length + 1 := by
  rw [List.rdropWhile_concat]
  split
  · rfl
  · rw [List.length_append, List.length_singleton]

/-- A history can be checked element by element. -/
instance {α : Type*} (P : List α → α → Prop) [∀ before, DecidablePred (P before)] (xs : List α) :
    Decidable (EachAfter P xs) := decidable_of_iff _ eachAfter_iff_take.symm

theorem eachAfter_nil {α : Type*} (P : List α → α → Prop) : EachAfter P [] := by
  intro before x after h
  simp at h

theorem eachAfter_singleton {α : Type*} {P : List α → α → Prop} {x : α} :
    EachAfter P [x] ↔ P [] x := by
  have h : EachAfter P ([] ++ [x]) ↔ EachAfter P [] ∧ P [] x := eachAfter_snoc
  rw [List.nil_append] at h
  rw [h, and_iff_right (eachAfter_nil P)]

theorem eachAfter_pair {α : Type*} {P : List α → α → Prop} {x y : α} :
    EachAfter P [x, y] ↔ P [] x ∧ P [x] y := by
  have h : EachAfter P ([x] ++ [y]) ↔ EachAfter P [x] ∧ P [x] y := eachAfter_snoc
  rw [List.singleton_append] at h
  rw [h, eachAfter_singleton]

/-! ## Deterministic machines -/

/-- The step relation of a function that may stop the machine. -/
def Steps (f : ι → σ → Except ε (σ × ω)) (i : ι) (s s' : σ) (o : ω) : Prop :=
  f i s = .ok (s', o)

/-- Run a function over a list of inputs. -/
def trace (f : ι → σ → Except ε (σ × ω)) : σ → List ι → Except ε (List (Transition σ ι ω))
  | _, [] => .ok []
  | s, i :: is =>
      match f i s with
      | .error e => .error e
      | .ok (s', o) =>
          match trace f s' is with
          | .error e => .error e
          | .ok cs => .ok (⟨s, i, s', o⟩ :: cs)

theorem run_of_trace_aux {f : ι → σ → Except ε (σ × ω)} {s₀ : σ} :
    ∀ {is : List ι} {s : σ} {before cs : List (Transition σ ι ω)}, Run (Steps f) s₀ before s →
      trace f s is = .ok cs →
        cs.map Transition.input = is ∧ ∃ s', Run (Steps f) s₀ (before ++ cs) s'
  | [], s, before, cs, hb, h => by
      cases h
      exact ⟨rfl, s, by simpa using hb⟩
  | i :: is, s, before, cs, hb, h => by
      rw [trace] at h
      split at h
      · cases h
      · rename_i s' o hf
        split at h
        · cases h
        · rename_i cs' hcs
          cases h
          have hnext : Run (Steps f) s₀ (before ++ [⟨s, i, s', o⟩]) s' := hb.step hf
          obtain ⟨hinput, t, hrun⟩ := run_of_trace_aux hnext hcs
          exact ⟨by rw [List.map_cons, hinput], t, by simpa using hrun⟩

/-- What `trace` computes is a run on its inputs. -/
theorem run_of_trace {f : ι → σ → Except ε (σ × ω)} {s : σ} {is : List ι}
    {cs : List (Transition σ ι ω)} (h : trace f s is = .ok cs) :
    cs.map Transition.input = is ∧ ∃ s', Run (Steps f) s cs s' := by
  have hstart : Run (Steps f) s [] s := .init
  simpa using run_of_trace_aux hstart h

/-- A run on given inputs with a decidable property, found by computing it. -/
theorem exists_run_of_trace (f : ι → σ → Except ε (σ × ω)) (s : σ) (is : List ι)
    (P : List (Transition σ ι ω) → Prop) [DecidablePred P]
    (h : (match trace f s is with | .ok cs => decide (P cs) | .error _ => false) = true) :
    ∃ cs s', Run (Steps f) s cs s' ∧ cs.map Transition.input = is ∧ P cs := by
  split at h
  · rename_i cs hcs
    obtain ⟨hinput, s', hrun⟩ := run_of_trace hcs
    exact ⟨cs, s', hrun, hinput, of_decide_eq_true h⟩
  · cases h

/-- A run on two inputs has two steps. -/
theorem eq_pair_of_inputs {cs : List (Transition σ ι ω)} {i i' : ι}
    (h : cs.map Transition.input = [i, i']) :
    ∃ d d', cs = [d, d'] ∧ d.input = i ∧ d'.input = i' := by
  obtain ⟨d, ds, rfl, hd, h⟩ := List.map_eq_cons_iff.mp h
  obtain ⟨d', ds, rfl, hd', h⟩ := List.map_eq_cons_iff.mp h
  cases List.map_eq_nil_iff.mp h
  exact ⟨d, d', rfl, hd, hd'⟩

/-! ## Inputs, outputs and the state reached -/

/-- Some run takes these inputs to these outputs and this state. -/
def Produces (step : ι → σ → σ → ω → Prop) (s₀ : σ) (is : List ι) (os : List ω) (s : σ) : Prop :=
  ∃ cs, Run step s₀ cs s ∧ cs.map Transition.input = is ∧ cs.map Transition.output = os

theorem produces_nil {step : ι → σ → σ → ω → Prop} {s₀ s : σ} {os : List ω} :
    Produces step s₀ [] os s ↔ os = [] ∧ s = s₀ := by
  constructor
  · rintro ⟨cs, hrun, hcs, rfl⟩
    obtain rfl := List.map_eq_nil_iff.mp hcs
    exact ⟨rfl, hrun.nil_inv⟩
  · rintro ⟨rfl, rfl⟩
    exact ⟨[], .init, rfl, rfl⟩

/-- The last input is that of a last step. -/
theorem produces_snoc {step : ι → σ → σ → ω → Prop} {s₀ s' : σ} {is : List ι} {i : ι}
    {os : List ω} : Produces step s₀ (is ++ [i]) os s' ↔
      ∃ os' o s, os = os' ++ [o] ∧ Produces step s₀ is os' s ∧ step i s s' o := by
  constructor
  · rintro ⟨cs, hrun, hcs, rfl⟩
    obtain ⟨ds, es, rfl, rfl, hes⟩ := List.map_eq_append_iff.mp hcs
    obtain ⟨c, rfl, rfl⟩ := List.map_eq_singleton_iff.mp hes
    obtain ⟨hbefore, hstep, rfl⟩ := hrun.snoc_inv
    exact ⟨ds.map Transition.output, c.output, c.pre, by simp, ⟨ds, hbefore, rfl, rfl⟩, hstep⟩
  · rintro ⟨os', o, s, rfl, ⟨cs, hrun, rfl, rfl⟩, hstep⟩
    exact ⟨cs ++ [⟨s, i, s', o⟩], hrun.step hstep, by simp, by simp⟩

/-- **Machines that do the same on the inputs of a third kind** take the same lists of
these to the same outputs. -/
theorem produces_congr {ι' κ : Type*} {stepA : ι → σ → σ → ω → Prop} {stepB : ι' → σ → σ → ω → Prop}
    (f : κ → ι) (g : κ → ι') (h : ∀ k s s' o, stepA (f k) s s' o ↔ stepB (g k) s s' o) {s₀ : σ}
    (ks : List κ) : ∀ {os : List ω} {s : σ},
      Produces stepA s₀ (ks.map f) os s ↔ Produces stepB s₀ (ks.map g) os s := by
  induction ks using List.reverseRecOn with
  | nil =>
      intro os s
      rw [List.map_nil, List.map_nil, produces_nil, produces_nil]
  | append_singleton ks k ih =>
      intro os s
      rw [List.map_append, List.map_append, List.map_singleton, List.map_singleton, produces_snoc,
        produces_snoc]
      constructor
      · rintro ⟨os', o, t, rfl, hbefore, hstep⟩
        exact ⟨os', o, t, rfl, ih.mp hbefore, (h k t s o).mp hstep⟩
      · rintro ⟨os', o, t, rfl, hbefore, hstep⟩
        exact ⟨os', o, t, rfl, ih.mpr hbefore, (h k t s o).mpr hstep⟩

/-! ## Simulation -/

section Simulation

variable {σ' ι' ω' : Type*} {stepA : ι → σ → σ → ω → Prop} {stepB : ι' → σ' → σ' → ω' → Prop}
  {R : σ → σ' → Prop} {I : ι → ι' → Prop} {O : ω → ω' → Prop}

/-- `R` relates the states, and related states do the same on related inputs:
one can step iff the other can, and all steps lead to related states and outputs. -/
structure Bisimulation (stepA : ι → σ → σ → ω → Prop) (stepB : ι' → σ' → σ' → ω' → Prop)
    (R : σ → σ' → Prop) (I : ι → ι' → Prop) (O : ω → ω' → Prop) : Prop where
  matched : ∀ {s t i j s' o t' o'}, R s t → I i j → stepA i s s' o → stepB j t t' o' →
    R s' t' ∧ O o o'
  enabled : ∀ {s t i j}, R s t → I i j → ((∃ s' o, stepA i s s' o) ↔ ∃ t' o', stepB j t t' o')

theorem forall₂_snoc_left {α β : Type*} {S : α → β → Prop} {as : List α} {a : α} {bs : List β}
    (h : List.Forall₂ S (as ++ [a]) bs) :
    ∃ bs' b, bs = bs' ++ [b] ∧ List.Forall₂ S as bs' ∧ S a b := by
  rw [← List.forall₂_reverse_iff, List.reverse_append, List.reverse_singleton,
    List.singleton_append] at h
  obtain ⟨b, bs', hab, h, hbs⟩ := List.forall₂_cons_left_iff.mp h
  refine ⟨bs'.reverse, b, ?_, ?_, hab⟩
  · rw [← List.reverse_reverse bs, hbs, List.reverse_cons]
  · rwa [← List.forall₂_reverse_iff, List.reverse_reverse]

theorem forall₂_snoc {α β : Type*} {S : α → β → Prop} {as : List α} {bs : List β} {a : α} {b : β}
    (h : List.Forall₂ S as bs) (hab : S a b) : List.Forall₂ S (as ++ [a]) (bs ++ [b]) :=
  List.rel_append h (.cons hab .nil)

/-- **Runs on related inputs agree.** -/
theorem Bisimulation.run_agree (hb : Bisimulation stepA stepB R I O) {s₀ : σ} {t₀ : σ'}
    (h₀ : R s₀ t₀) {cs : List (Transition σ ι ω)} {s : σ} (hA : Run stepA s₀ cs s) :
    ∀ {ds : List (Transition σ' ι' ω')} {t : σ'}, Run stepB t₀ ds t →
      List.Forall₂ (fun c d => I c.input d.input) cs ds →
      R s t ∧ List.Forall₂ (fun c d => O c.output d.output) cs ds := by
  induction hA with
  | init =>
      intro ds t hB hI
      cases List.forall₂_nil_left_iff.mp hI
      generalize hds : [] = ds at hB
      cases hB with
      | init => exact ⟨h₀, .nil⟩
      | step _ _ => simp at hds
  | step _ hs ih =>
      intro ds t hB hI
      obtain ⟨ds, d, rfl, hI, hi⟩ := forall₂_snoc_left hI
      obtain ⟨hbefore, hd, rfl⟩ := hB.snoc_inv
      obtain ⟨hR, hO⟩ := ih hbefore hI
      obtain ⟨hR', ho⟩ := hb.matched hR hi hs hd
      exact ⟨hR', forall₂_snoc hO ho⟩

/-- **Runs can be followed** on any inputs related to theirs. -/
theorem Bisimulation.run_follow (hb : Bisimulation stepA stepB R I O) {s₀ : σ} {t₀ : σ'}
    (h₀ : R s₀ t₀) {cs : List (Transition σ ι ω)} {s : σ} (hA : Run stepA s₀ cs s) :
    ∀ {js : List ι'}, List.Forall₂ (fun c j => I c.input j) cs js →
      ∃ ds t, Run stepB t₀ ds t ∧ ds.map Transition.input = js ∧ R s t := by
  induction hA with
  | init =>
      intro js hI
      cases List.forall₂_nil_left_iff.mp hI
      exact ⟨[], t₀, .init, rfl, h₀⟩
  | step _ hs ih =>
      intro js hI
      obtain ⟨js, j, rfl, hI, hj⟩ := forall₂_snoc_left hI
      obtain ⟨ds, t, hB, rfl, hR⟩ := ih hI
      obtain ⟨t', o', hd⟩ := (hb.enabled hR hj).mp ⟨_, _, hs⟩
      refine ⟨ds ++ [⟨t, j, t', o'⟩], t', hB.step hd, ?_, (hb.matched hR hj hs hd).1⟩
      rw [List.map_append, List.map_singleton]

theorem forall₂_eq_iff_map {α β γ : Type*} {f : α → γ} {g : β → γ} {as : List α} {bs : List β} :
    List.Forall₂ (fun a b => f a = g b) as bs ↔ as.map f = bs.map g := by
  have h : List.Forall₂ Eq (as.map f) (bs.map g) ↔ as.map f = bs.map g := by
    rw [List.forall₂_eq_eq_eq]
  rw [← h, List.forall₂_map_left_iff, List.forall₂_map_right_iff]

/-- Machines that do the same on the same inputs. -/
theorem Bisimulation.run_twin {stepB : ι → σ' → σ' → ω → Prop}
    (hb : Bisimulation stepA stepB R Eq Eq) {s₀ : σ} {t₀ : σ'} (h₀ : R s₀ t₀)
    {cs : List (Transition σ ι ω)} {s : σ} (hA : Run stepA s₀ cs s) :
    ∃ ds t, Run stepB t₀ ds t ∧ cs.map Transition.input = ds.map Transition.input ∧
      cs.map Transition.output = ds.map Transition.output ∧ R s t := by
  have hinputs : List.Forall₂ (fun c j => Transition.input c = id j) cs (cs.map Transition.input) :=
    forall₂_eq_iff_map.mpr (List.map_id _).symm
  obtain ⟨ds, t, hB, hds, hR⟩ := hb.run_follow h₀ hA hinputs
  have hsame := forall₂_eq_iff_map.mpr hds.symm
  exact ⟨ds, t, hB, hds.symm, forall₂_eq_iff_map.mp (hb.run_agree h₀ hA hB hsame).2, hR⟩

theorem Bisimulation.symm (hb : Bisimulation stepA stepB R I O) :
    Bisimulation stepB stepA (flip R) (flip I) (flip O) where
  matched hR hi hB hA := hb.matched hR hi hA hB
  enabled hR hi := (hb.enabled hR hi).symm

/-- Bisimulations compose: the machine in the middle can always follow. -/
theorem Bisimulation.comp {σ'' ι'' ω'' : Type*} {stepC : ι'' → σ'' → σ'' → ω'' → Prop}
    {R' : σ' → σ'' → Prop} {I' : ι' → ι'' → Prop} {O' : ω' → ω'' → Prop}
    (hb : Bisimulation stepA stepB R I O) (hb' : Bisimulation stepB stepC R' I' O') :
    Bisimulation stepA stepC (Relation.Comp R R') (Relation.Comp I I') (Relation.Comp O O') where
  matched := by
    rintro s u i k s' o u' o'' ⟨t, hR, hR'⟩ ⟨j, hi, hi'⟩ hA hC
    obtain ⟨t', o', hB⟩ := (hb.enabled hR hi).mp ⟨s', o, hA⟩
    obtain ⟨hnext, ho⟩ := hb.matched hR hi hA hB
    obtain ⟨hnext', ho'⟩ := hb'.matched hR' hi' hB hC
    exact ⟨⟨t', hnext, hnext'⟩, ⟨o', ho, ho'⟩⟩
  enabled := by
    rintro s u i k ⟨t, hR, hR'⟩ ⟨j, hi, hi'⟩
    exact (hb.enabled hR hi).trans (hb'.enabled hR' hi')

/-- The machine goes through all of these inputs. -/
def HasRun (step : ι → σ → σ → ω → Prop) (s₀ : σ) (is : List ι) : Prop :=
  ∃ cs s, Run step s₀ cs s ∧ cs.map Transition.input = is

/-- **Related inputs are gone through by both or by neither.** -/
theorem Bisimulation.hasRun_iff (hb : Bisimulation stepA stepB R I O) {s₀ : σ} {t₀ : σ'}
    (h₀ : R s₀ t₀) {is : List ι} {js : List ι'} (hI : List.Forall₂ I is js) :
    HasRun stepA s₀ is ↔ HasRun stepB t₀ js := by
  constructor
  · rintro ⟨cs, s, hA, rfl⟩
    obtain ⟨ds, t, hB, hds, -⟩ := hb.run_follow h₀ hA (List.forall₂_map_left_iff.mp hI)
    exact ⟨ds, t, hB, hds⟩
  · rintro ⟨ds, t, hB, rfl⟩
    obtain ⟨cs, s, hA, hcs, -⟩ :=
      hb.symm.run_follow h₀ hB (List.forall₂_map_left_iff.mp hI.flip)
    exact ⟨cs, s, hA, hcs⟩

end Simulation

end PTop.Framework
