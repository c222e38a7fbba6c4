import PrismPipe.Lib.Transition
import PrismPipe.Core.Node

/-! The three ways to execute a node leave the same envelope, where `process` leaves one that can be
recorded in, and one given up at its deadline cannot touch the caller's. -/

namespace PrismPipe.Core

open ObjectGraph Transition

namespace Node

/-- What `failureResult` comes to on an envelope that can be recorded in. -/
def failed (self : Node) (H : Heap) (e : Nat) (errorType message : String) : Heap × NodeResult :=
  (terminate (self.entered H e ("error: " ++ errorType)) e message, ⟨e, false, some message⟩)

/-- So for `executeSync`. -/
def finished (self : Node) (H : Heap) (e : Nat) : Heap × NodeResult :=
  match self.process H e with
  | (H, .raised errorType message) => self.failed H e errorType message
  | (H, .returned envelope success error action) =>
    match getActionDescription success error action with
    | .error message => self.failed H e "ValidationError" message
    | .ok action =>
      let H := self.entered H envelope action
      (if success then H else setattr H envelope .error (optional error),
        ⟨envelope, success, error⟩)

def committed (e : Nat) (result : Heap × NodeResult) : Heap × NodeResult :=
  (commitEnvelope result.1 e result.2.envelope, { result.2 with envelope := e })

def expired (self : Node) (texts : Texts) (H : Heap) (e : Nat) (timeout : ℚ) : Heap × NodeResult :=
  let message := self.timeoutMessage texts timeout
  (terminate (self.entered H e "timeout") e message, ⟨e, false, some message⟩)

end Node

variable {R : Nat → Nat → Prop} {H K : Heap}

def IsEnvelope (H : Heap) (e : Nat) : Prop :=
  ∃ slots, H[e]? = some ⟨.envelope, slots⟩ ∧ slots.length = 11

theorem IsEnvelope.lt (h : IsEnvelope H e) : e < H.length := by
  obtain ⟨slots, h, -⟩ := h
  exact (List.getElem?_eq_some_iff.mp h).1

theorem IsEnvelope.of_prefix (h : IsEnvelope H e) (hp : H <+: K) : IsEnvelope K e := by
  have hlt := h.lt
  obtain ⟨slots, hs, hl⟩ := h
  exact ⟨slots, (getElem?_of_extends hp hlt).trans hs, hl⟩

theorem IsEnvelope.modify (h : IsEnvelope H e) {f : Cell Class Atom → Cell Class Atom}
    (hf : ∀ c, c.label = .envelope → (f c).label = .envelope ∧
      (f c).slots.length = c.slots.length) (p : Nat) : IsEnvelope (H.modify p f) e := by
  obtain ⟨slots, hs, hl⟩ := h
  obtain ⟨hlabel, hlength⟩ := hf ⟨.envelope, slots⟩ rfl
  have hcell : f ⟨.envelope, slots⟩ = ⟨.envelope, (f ⟨.envelope, slots⟩).slots⟩ := by
    cases hc : f ⟨.envelope, slots⟩ with
    | mk label slots' =>
      rw [hc] at hlabel
      exact congrArg (Cell.mk · slots') hlabel
  by_cases hp : p = e
  · refine ⟨(f ⟨.envelope, slots⟩).slots, ?_, hlength.trans hl⟩
    rw [List.getElem?_modify, hs, Option.map_eq_map, Option.map_some, if_pos hp]
    exact congrArg some hcell
  · refine ⟨slots, ?_, hl⟩
    rw [List.getElem?_modify, hs, Option.map_eq_map, Option.map_some, if_neg hp]

theorem IsEnvelope.setattr (h : IsEnvelope H e) (p : Nat) (f : Field) (v : Slot Atom) :
    IsEnvelope (setattr H p f v) e := by
  refine IsEnvelope.modify h (fun c hc => ?_) p
  exact ⟨hc, List.length_set⟩

theorem IsEnvelope.append (h : IsEnvelope H e) (p entry : Nat) :
    IsEnvelope (append H p entry) e := by
  unfold Core.append
  split
  · refine h.modify (fun c hc => ?_) _
    rw [if_neg (by rw [hc]; decide)]
    exact ⟨hc, rfl⟩
  · exact h

theorem IsEnvelope.entered (h : IsEnvelope H e) (node : Node) (p : Nat) (action : String) :
    IsEnvelope (node.entered H p action) e := by
  refine IsEnvelope.append (h.of_prefix ?_) p _
  rw [List.append_assoc]
  exact List.prefix_append _ _

theorem IsEnvelope.terminate (h : IsEnvelope H e) (p : Nat) (error : String) :
    IsEnvelope (terminate H p error) e := by
  unfold Core.terminate
  dsimp only
  split
  · exact h.setattr _ _ _
  · exact (h.setattr _ _ _).setattr _ _ _

section Closed

theorem closed_modify {f : Cell Class Atom → Cell Class Atom} (hc : H.Closed)
    (hf : ∀ c ∈ H, ∀ s ∈ (f c).slots, s.Below H.length) (p : Nat) :
    ObjectGraph.Heap.Closed (H.modify p f) := by
  intro c hm s hs
  rw [List.length_modify]
  obtain ⟨i, hi⟩ := List.mem_iff_getElem?.mp hm
  rw [List.getElem?_modify] at hi
  obtain ⟨d, hd, rfl⟩ := Option.map_eq_some_iff.mp hi
  have hd := List.mem_of_getElem? hd
  split at hs
  · exact hf d hd s hs
  · exact hc d hd s hs

theorem closed_concat (hc : H.Closed) {c : Cell Class Atom}
    (h : ∀ s ∈ c.slots, s.Below (H.length + 1)) : ObjectGraph.Heap.Closed (H ++ [c]) := by
  intro d hd s hs
  rw [List.length_append, List.length_singleton]
  rcases List.mem_append.mp hd with hd | hd
  · exact (hc d hd s hs).mono (Nat.le_succ _)
  · obtain rfl := List.mem_singleton.mp hd
    exact h s hs

theorem slot_below (hc : H.Closed) (p i : Nat) (a : Atom) :
    (H.slot p i (.atom a)).Below H.length := by
  unfold ObjectGraph.Heap.slot
  cases hp : H[p]? with
  | none => trivial
  | some c =>
    rw [Option.elim_some, List.getD_eq_getElem?_getD]
    cases hs : c.slots[i]? with
    | none => trivial
    | some s => exact hc c (List.mem_of_getElem? hp) s (List.mem_of_getElem? hs)

theorem getattr_below (hc : H.Closed) (e : Nat) (f : Field) :
    (getattr H e f).Below H.length := slot_below hc e _ _

theorem closed_setattr (hc : H.Closed) {v : Slot Atom} (hv : v.Below H.length) (e : Nat)
    (f : Field) : ObjectGraph.Heap.Closed (setattr H e f v) := by
  refine closed_modify hc (fun c hcm s hs => ?_) e
  rcases List.mem_or_eq_of_mem_set hs with hs | rfl
  · exact hc c hcm s hs
  · exact hv

theorem closed_append (hc : H.Closed) (he : entry < H.length) (e : Nat) :
    ObjectGraph.Heap.Closed (append H e entry) := by
  unfold append
  split
  · refine closed_modify hc (fun c hcm s hs => ?_) _
    split at hs
    · rcases List.mem_append.mp hs with hs | hs
      · exact hc c hcm s hs
      · obtain rfl := List.mem_singleton.mp hs
        exact he
    · exact hc c hcm s hs
  · exact hc

theorem snapshot_below (hc : H.Closed) (e : Nat) : ∀ s ∈ (snapshot H e).slots, s.Below H.length := by
  unfold snapshot
  split
  next p _ =>
    cases hp : H[p]? with
    | none => exact fun _ h => (List.not_mem_nil h).elim
    | some c => exact hc c (List.mem_of_getElem? hp)
  · exact fun _ h => (List.not_mem_nil h).elim

theorem closed_entered (hc : H.Closed) (node : Node) (e : Nat) (action : String) :
    ObjectGraph.Heap.Closed (node.entered H e action) := by
  have hs := closed_concat hc fun s hs => (snapshot_below hc e s hs).mono (Nat.le_succ _)
  have hl : (H ++ [snapshot H e]).length = H.length + 1 := List.length_append
  refine closed_append (closed_concat hs fun s hs => ?_) ?_ e
  · obtain rfl := List.mem_singleton.mp hs
    rw [hl]
    exact Nat.lt_add_of_pos_right Nat.two_pos
  · rw [List.length_append, hl]
    exact Nat.lt_succ_self _

theorem closed_terminate (hc : H.Closed) (e : Nat) (error : String) :
    ObjectGraph.Heap.Closed (terminate H e error) := by
  have ht := closed_setattr (v := .atom (.bool true)) hc trivial e .terminated
  unfold terminate
  dsimp only
  split
  · exact ht
  · exact closed_setattr ht (by trivial) e .error

end Closed

section Iso

variable (h : Iso R H K) (he : R e e')
include h he

theorem getattr_rel (f : Field) : (getattr H e f).Rel R (getattr K e' f) := h.corresponds.slot he _ _

theorem setattr_iso (f : Field) {v w : Slot Atom} (hv : v.Rel R w) :
    Iso R (setattr H e f v) (setattr K e' f w) := h.assign he _ hv

theorem snapshot_rel : (snapshot H e).Rel R (snapshot K e') := by
  have hs := getattr_rel h he .state
  have hd : Cell.Rel R (⟨.dict [], []⟩ : Cell Class Atom) ⟨.dict [], []⟩ := ⟨rfl, .nil⟩
  unfold snapshot
  cases hp : getattr H e .state with
  | atom a =>
    rw [hp] at hs
    cases hq : getattr K e' .state with
    | atom b => exact hd
    | ref q =>
      rw [hq] at hs
      cases hs
  | ref p =>
    rw [hp] at hs
    cases hq : getattr K e' .state with
    | atom b =>
      rw [hq] at hs
      cases hs
    | ref q =>
      rw [hq] at hs
      cases hs with
      | ref hs =>
        obtain ⟨c, d, hc, hd, hcd⟩ := h.corresponds p q hs
        dsimp only
        rw [hc, hd]
        exact hcd

theorem append_iso (ha : R a b) : Iso R (append H e a) (append K e' b) := by
  have hs := getattr_rel h he .history
  unfold append
  cases hp : getattr H e .history with
  | atom _ =>
    rw [hp] at hs
    cases hq : getattr K e' .history with
    | atom _ => exact h
    | ref q =>
      rw [hq] at hs
      cases hs
  | ref p =>
    rw [hp] at hs
    cases hq : getattr K e' .history with
    | atom _ =>
      rw [hq] at hs
      cases hs
    | ref q =>
      rw [hq] at hs
      cases hs with
      | ref hs =>
        refine h.modify hs fun c d hcd => ?_
        rw [← hcd.label]
        split
        · exact ⟨rfl, List.rel_append hcd.slots (.cons (.ref ha) .nil)⟩
        · exact hcd

theorem terminate_iso (error : String) : Iso R (terminate H e error) (terminate K e' error) := by
  have ht := setattr_iso (v := .atom (.bool true)) h he .terminated .atom
  unfold terminate
  dsimp only
  split
  · exact ht
  · exact setattr_iso ht he .error .atom

theorem entered_iso (node : Node) (action : String) :
    ∃ S, (∀ p q, R p q → S p q) ∧ (∀ p q, S p q → R p q ∨ (K.length ≤ q ∧ q < K.length + 2)) ∧
      Iso S (node.entered H e action) (node.entered K e' action) := by
  have h1 := h.alloc (snapshot_rel h he)
  let entry (n : Nat) : Cell Class Atom := ⟨.entry node.nodeType node.capability action, [.ref n]⟩
  have hentry : (entry H.length).Rel (extend R H.length K.length) (entry K.length) :=
    ⟨rfl, .cons (.ref (.inr ⟨rfl, rfl⟩)) .nil⟩
  have h2 := h1.alloc hentry
  rw [show (H ++ [snapshot H e]).length = H.length + 1 from List.length_append,
    show (K ++ [snapshot K e']).length = K.length + 1 from List.length_append] at h2
  refine ⟨_, fun p q hr => .inl (.inl hr), ?_, append_iso h2 (.inl (.inl he)) (.inr ⟨rfl, rfl⟩)⟩
  rintro p q ((hr | ⟨-, rfl⟩) | ⟨-, rfl⟩)
  · exact .inl hr
  · exact .inr ⟨Nat.le_refl _, by omega⟩
  · exact .inr ⟨by omega, by omega⟩

theorem failed_iso (node : Node) (errorType message : String) :
    ∃ S, (∀ p q, R p q → S p q) ∧ Iso S (node.failed H e errorType message).1
      (node.failed K e' errorType message).1 := by
  obtain ⟨S, hS, -, hr⟩ := entered_iso h he node ("error: " ++ errorType)
  exact ⟨S, hS, terminate_iso hr (hS _ _ he) message⟩

end Iso

inductive Outcome.Rel (R : Nat → Nat → Prop) : Outcome → Outcome → Prop
  | raised : Rel R (.raised errorType message) (.raised errorType message)
  | returned : R x y →
      Rel R (.returned x success error action) (.returned y success error action)

/-- A `process` that is a function of the envelope: heaps alike, whatever the addresses, it leaves
alike.  Its references do not dangle, and an envelope stays one. -/
structure Deterministic (process : Heap → Nat → Heap × Outcome) : Prop where
  agrees : ∀ {R : Nat → Nat → Prop} {H K : Heap} {e e' : Nat}, Iso R H K → R e e' →
    ∃ S, (∀ p q, R p q → S p q) ∧ Iso S (process H e).1 (process K e').1 ∧
      (process H e).2.Rel S (process K e').2
  closed : ∀ {H : Heap} {e : Nat}, ObjectGraph.Heap.Closed H → IsEnvelope H e →
    ObjectGraph.Heap.Closed (process H e).1
  envelope : ∀ {H : Heap} {e p : Nat}, IsEnvelope H p → IsEnvelope (process H e).1 p
  returned : ∀ {H : Heap} {e x : Nat}, IsEnvelope H e →
    (process H e).2 = .returned x success error action → IsEnvelope (process H e).1 x

theorem optional_rel (s : Option String) : (optional s).Rel R (optional s) := by
  cases s <;> exact .atom

variable {node : Node} (hp : Deterministic node.process)
include hp

theorem finished_iso (h : Iso R H K) (he : R e e') :
    ∃ S, Iso S (node.finished H e).1 (node.finished K e').1 ∧
      S (node.finished H e).2.envelope (node.finished K e').2.envelope ∧
      (node.finished H e).2.success = (node.finished K e').2.success ∧
      (node.finished H e).2.error = (node.finished K e').2.error := by
  obtain ⟨S, hS, hi, ho⟩ := hp.agrees h he
  unfold Node.finished
  generalize node.process H e = a at hi ho ⊢
  generalize node.process K e' = b at hi ho ⊢
  obtain ⟨H', o⟩ := a
  obtain ⟨K', o'⟩ := b
  dsimp only at hi ho ⊢
  cases ho with
  | @raised errorType message =>
    obtain ⟨T, hT, hr⟩ := failed_iso hi (hS _ _ he) node errorType message
    exact ⟨T, hr, hT _ _ (hS _ _ he), rfl, rfl⟩
  | @returned x y success error action hxy =>
    dsimp only
    cases Node.getActionDescription success error action with
    | error message =>
      obtain ⟨T, hT, hr⟩ := failed_iso hi (hS _ _ he) node "ValidationError" message
      exact ⟨T, hr, hT _ _ (hS _ _ he), rfl, rfl⟩
    | ok description =>
      obtain ⟨T, hT, -, hr⟩ := entered_iso hi hxy node description
      refine ⟨T, ?_, hT _ _ hxy, rfl, rfl⟩
      cases success with
      | true => exact hr
      | false => exact setattr_iso hr (hT _ _ hxy) .error (optional_rel error)

omit hp in
theorem failed_envelope (h : IsEnvelope H p) (errorType message : String) :
    IsEnvelope (node.failed H e errorType message).1 p :=
  (h.entered node e _).terminate e message

omit hp in
theorem closed_failed (hc : ObjectGraph.Heap.Closed H) (errorType message : String) :
    ObjectGraph.Heap.Closed (node.failed H e errorType message).1 :=
  closed_terminate (closed_entered hc node e _) e message

theorem finished_envelope (h : IsEnvelope H p) : IsEnvelope (node.finished H e).1 p := by
  have hpe := hp.envelope (e := e) h
  unfold Node.finished
  split
  next ho =>
    rw [ho] at hpe
    exact failed_envelope hpe _ _
  next ho =>
    rw [ho] at hpe
    split
    · exact failed_envelope hpe _ _
    · dsimp only
      split
      · exact hpe.entered node _ _
      · exact (hpe.entered node _ _).setattr _ _ _

theorem finished_closed (hc : ObjectGraph.Heap.Closed H) (h : IsEnvelope H e) :
    ObjectGraph.Heap.Closed (node.finished H e).1 ∧
      IsEnvelope (node.finished H e).1 (node.finished H e).2.envelope := by
  have hpc := hp.closed hc h
  have hpe := hp.envelope (e := e) h
  unfold Node.finished
  split
  next H' errorType message ho =>
    rw [ho] at hpc hpe
    exact ⟨closed_failed hpc _ _, failed_envelope hpe _ _⟩
  next H' x success error action ho =>
    have hpx : IsEnvelope (node.process H e).1 x := hp.returned h (congrArg Prod.snd ho)
    rw [ho] at hpc hpe hpx
    split
    · exact ⟨closed_failed hpc _ _, failed_envelope hpe _ _⟩
    · dsimp only
      split
      · exact ⟨closed_entered hpc node _ _, hpx.entered node _ _⟩
      · refine ⟨closed_setattr (closed_entered hpc node _ _) ?_ _ _,
          (hpx.entered node _ _).setattr _ _ _⟩
        cases error <;> trivial

omit hp

theorem committedFields_spec {s : Nat} : ∀ (fs : List Field) {H : Heap},
    ObjectGraph.Heap.Closed H → s < H.length →
    H <+: (committedFields s H fs).1 ∧ (committedFields s H fs).2.map (·.1) = fs ∧
      ∀ fv ∈ (committedFields s H fs).2, ∃ k, H.length ≤ k ∧
        fv.2 = (getattr H s fv.1).shift k ∧
        ∀ p < H.length, (committedFields s H fs).1[p + k]? = (H[p]?).map (·.shift k)
  | [], H, _, _ => ⟨List.prefix_refl _, rfl, List.forall_mem_nil _⟩
  | f :: fs, H, hc, hs => by
    have hpre := deepcopy_extends H (getattr H s f)
    have hlen := hpre.length_le
    obtain ⟨hp, hf, hk⟩ := committedFields_spec fs (closed_deepcopy hc (getattr H s f))
      (Nat.lt_of_lt_of_le hs hlen)
    refine ⟨hpre.trans hp, congrArg (f :: ·) hf, fun fv hfv => ?_⟩
    rcases List.mem_cons.mp hfv with rfl | hfv
    · refine ⟨H.length, Nat.le_refl _, rfl, fun p hlt => ?_⟩
      have hlt' : p + H.length < (deepcopy H (getattr H s f)).1.length := by
        rw [deepcopy, List.length_append, List.length_map]
        exact Nat.add_lt_add_right hlt _
      exact (getElem?_of_extends hp hlt').trans (getElem?_deepcopy H _ p)
    · obtain ⟨k, hle, hv, hcopy⟩ := hk fv hfv
      have hg : getattr (deepcopy H (getattr H s f)).1 s fv.1 = getattr H s fv.1 :=
        slot_of_prefix hpre hs _ _
      refine ⟨k, hlen.trans hle, by rw [hv, hg], fun p hlt => ?_⟩
      have hc' := hcopy p (Nat.lt_of_lt_of_le hlt hlen)
      rwa [getElem?_of_extends hpre hlt] at hc'

theorem index_injective {f g : Field} (h : f.index = g.index) : f = g := by
  cases f <;> cases g <;> first | rfl | cases h

theorem index_lt (f : Field) : f.index < 11 := by
  cases f <;> decide

theorem getElem?_setattr_ne {q t : Nat} (h : q ≠ t) (f : Field) (v : Slot Atom) :
    (setattr H t f v)[q]? = H[q]? := by
  rw [setattr, ObjectGraph.Heap.assign, List.getElem?_modify, Option.map_eq_map]
  simp [Ne.symm h]

theorem getattr_setattr_same (h : IsEnvelope H t) (f : Field) (v : Slot Atom) :
    getattr (setattr H t f v) t f = v := by
  obtain ⟨slots, hs, hl⟩ := h
  have hi := index_lt f
  rw [← hl] at hi
  simp [getattr, setattr, ObjectGraph.Heap.slot, ObjectGraph.Heap.assign, hs, hi]

theorem getattr_setattr_ne {f g : Field} (h : f ≠ g) (t : Nat) (v : Slot Atom) :
    getattr (setattr H t g v) t f = getattr H t f := by
  have hi : g.index ≠ f.index := fun e => h (index_injective e).symm
  cases ht : H[t]? <;>
    simp [getattr, setattr, ObjectGraph.Heap.slot, ObjectGraph.Heap.assign, ht, hi]

theorem getattr_setattrs_notMem {t : Nat} {f : Field} : ∀ (cs : List (Field × Slot Atom)) {H : Heap},
    f ∉ cs.map (·.1) → getattr (setattrs t H cs) t f = getattr H t f
  | [], _, _ => rfl
  | (g, v) :: cs, H, hf => by
    rw [List.map_cons, List.mem_cons, not_or] at hf
    exact (getattr_setattrs_notMem cs hf.2).trans (getattr_setattr_ne hf.1 t v)

theorem getattr_setattrs {t : Nat} : ∀ (cs : List (Field × Slot Atom)) {H : Heap},
    IsEnvelope H t → (cs.map (·.1)).Nodup → ∀ fv ∈ cs, getattr (setattrs t H cs) t fv.1 = fv.2
  | [], _, _, _ => List.forall_mem_nil _
  | (g, v) :: cs, H, ht, hn => by
    rw [List.map_cons, List.nodup_cons] at hn
    intro fv hfv
    rcases List.mem_cons.mp hfv with rfl | hfv
    · exact (getattr_setattrs_notMem cs hn.1).trans (getattr_setattr_same ht g v)
    · exact getattr_setattrs cs (ht.setattr t g v) hn.2 fv hfv

theorem getElem?_setattrs_ne {q t : Nat} (h : q ≠ t) : ∀ (cs : List (Field × Slot Atom)) {H : Heap},
    (setattrs t H cs)[q]? = H[q]?
  | [], _ => rfl
  | (g, v) :: cs, _ => (getElem?_setattrs_ne h cs).trans (getElem?_setattr_ne h g v)

def EqualFields (H : Heap) (s : Nat) (K : Heap) (t : Nat) : Prop :=
  ∀ f, Same H (getattr H s f) K (getattr K t f)

theorem EqualFields.symm (h : EqualFields H s K t) : EqualFields K t H s := fun f => (h f).symm

theorem EqualFields.trans {M : Heap} (h : EqualFields H s K t) (k : EqualFields K t M u) :
    EqualFields H s M u := fun f => (h f).trans (k f)

theorem Corresponds.equalFields (h : Corresponds R H K) (hst : R s t) : EqualFields H s K t :=
  fun f => ⟨R, h, h.slot hst f.index _⟩

theorem mem_modelFields (f : Field) : f ∈ Field.modelFields := by
  cases f <;> decide

theorem commitEnvelope_equal (hc : ObjectGraph.Heap.Closed H) (ht : IsEnvelope H t)
    (hs : IsEnvelope H s) : EqualFields H s (commitEnvelope H t s) t := by
  unfold commitEnvelope
  split
  next hts =>
    subst hts
    exact Corresponds.equalFields (Iso.of_agree hc fun _ _ => rfl).corresponds ⟨hs.lt, rfl⟩
  next hts =>
    obtain ⟨hpre, hf, hk⟩ := committedFields_spec Field.modelFields hc hs.lt
    intro f
    have hmem : f ∈ (committedFields s H Field.modelFields).2.map (·.1) := hf ▸ mem_modelFields f
    obtain ⟨fv, hfv, rfl⟩ := List.mem_map.mp hmem
    obtain ⟨k, hle, hv, hcopy⟩ := hk fv hfv
    have hlt := ht.lt
    rw [getattr_setattrs _ (ht.of_prefix hpre) (by rw [hf]; decide) fv hfv, hv]
    refine (Iso.shift hc fun p hp => ?_).same ((getattr_below hc s fv.1).shift_rel k)
    rw [getElem?_setattrs_ne (by omega)]
    exact hcopy p hp

theorem modelCopy_envelope (h : IsEnvelope H e) :
    IsEnvelope (modelCopy H e).1 (modelCopy H e).2 := by
  obtain ⟨slots, hs, hl⟩ := h
  refine ⟨slots.map (·.shift H.length), ?_, by rw [List.length_map, hl]⟩
  exact (getElem?_deepcopy H (.ref e) e).trans (by rw [hs]; rfl)

theorem committed_equal (hp : Deterministic node.process)
    (hc : ObjectGraph.Heap.Closed H) (he : IsEnvelope H e) (ht : IsEnvelope H t) :
    EqualFields (node.finished H e).1 (node.finished H e).2.envelope
      (Node.committed t (node.finished H e)).1 t := by
  obtain ⟨hc', hx⟩ := finished_closed hp hc he
  exact commitEnvelope_equal hc' (finished_envelope hp ht) hx

theorem inPlace_copied (hp : Deterministic node.process) (hc : ObjectGraph.Heap.Closed H)
    (he : IsEnvelope H e) :
    (Node.committed e (node.finished H e)).2 =
        (Node.committed e
          (node.finished (modelCopy H e).1 (modelCopy H e).2)).2 ∧
      EqualFields (Node.committed e (node.finished H e)).1 e
        (Node.committed e
          (node.finished (modelCopy H e).1 (modelCopy H e).2)).1 e := by
  have hiso := Iso.shift hc fun p _ => getElem?_deepcopy H (.ref e) p
  have hrel : e < H.length ∧ (modelCopy H e).2 = e + H.length := ⟨he.lt, rfl⟩
  obtain ⟨S, hS, hx, hsuccess, herror⟩ := finished_iso hp hiso hrel
  have ha := committed_equal hp hc he he
  have hb := committed_equal (H := (modelCopy H e).1) hp (closed_deepcopy hc (.ref e))
    (modelCopy_envelope he) (he.of_prefix (deepcopy_extends H (.ref e)))
  refine ⟨?_, ha.symm.trans ((Corresponds.equalFields hS.corresponds hx).trans hb)⟩
  unfold Node.committed
  dsimp only
  rw [hsuccess, herror]
  rfl

/-- An abandoned call and its caller over one heap: the objects the worker holds references to,
and the length of the heap when the deadline passed. -/
structure Race where
  heap : Heap
  held : List Nat
  deadline : Option Nat

def Held (held : List Nat) : Slot Atom → Prop
  | .atom _ => True
  | .ref p => p ∈ held

inductive Race.Step (node : Node) (texts : Texts) (e : Nat) (timeout : ℚ) :
    Race → Unit → Race → Prop
  | load : p ∈ s.held → s.heap[p]? = some c → .ref q ∈ c.slots →
      Step node texts e timeout s () { s with held := q :: s.held }
  | store : p ∈ s.held → (∀ v ∈ c.slots, Held s.held v) →
      Step node texts e timeout s () { s with heap := s.heap.set p c }
  | alloc : (∀ v ∈ c.slots, Held s.held v) →
      Step node texts e timeout s ()
        { s with heap := s.heap ++ [c], held := s.heap.length :: s.held }
  | deadline : s.deadline = none →
      Step node texts e timeout s ()
        { s with
          heap := (node.timeoutResult texts s.heap e timeout).1
          deadline := some s.heap.length }

def race (node : Node) (texts : Texts) (H : Heap) (e : Nat) (timeout : ℚ) :
    System Race Unit where
  init s := s = ⟨(modelCopy H e).1, [(modelCopy H e).2], none⟩
  step := Race.Step node texts e timeout

/-- What is the worker's: all but the caller's heap and the two objects `record` creates. -/
def Race.Own (s : Race) (n p : Nat) : Prop :=
  n ≤ p ∧ ∀ d, s.deadline = some d → ¬ (d ≤ p ∧ p < d + 2)

structure Race.Isolated (H K : Heap) (e : Nat) (s : Race) : Prop where
  held : ∀ p ∈ s.held, s.Own H.length p ∧ p < s.heap.length
  inside : ∀ p c q, s.Own H.length p → s.heap[p]? = some c → .ref q ∈ c.slots →
    s.Own H.length q ∧ q < s.heap.length
  before : s.deadline = none → H.length ≤ s.heap.length ∧ ∀ p < H.length, s.heap[p]? = H[p]?
  after : ∀ d, s.deadline = some d → H.length ≤ d ∧ d + 2 ≤ s.heap.length ∧
    ∃ R, Corresponds R K s.heap ∧ R e e ∧ ∀ p q, R p q → ¬ s.Own H.length q

theorem Race.Isolated.refs {s : Race} (h : s.Isolated H K e) {c : Cell Class Atom}
    (hc : ∀ v ∈ c.slots, Held s.held v) (hq : .ref q ∈ c.slots) :
    s.Own H.length q ∧ q < s.heap.length :=
  h.held q (hc _ hq)

theorem Race.Isolated.length_le {s : Race} (h : s.Isolated H K e) :
    H.length ≤ s.heap.length ∧ ∀ d, s.deadline = some d → d + 2 ≤ s.heap.length := by
  refine ⟨?_, fun d hd => (h.after d hd).2.1⟩
  cases hd : s.deadline with
  | none => exact (h.before hd).1
  | some d =>
    obtain ⟨h1, h2, -⟩ := h.after d hd
    omega

theorem corresponds_set {c : Cell Class Atom} (h : Corresponds R H K) (hn : ∀ a b, R a b → b ≠ p) :
    Corresponds R H (K.set p c) := by
  intro a b hab
  obtain ⟨x, y, hx, hy, hxy⟩ := h a b hab
  exact ⟨x, y, hx, by rwa [List.getElem?_set_ne (hn a b hab).symm], hxy⟩

theorem corresponds_concat {c : Cell Class Atom} (h : Corresponds R H K) :
    Corresponds R H (K ++ [c]) := by
  intro a b hab
  obtain ⟨x, y, hx, hy, hxy⟩ := h a b hab
  have hb := (List.getElem?_eq_some_iff.mp hy).1
  exact ⟨x, y, hx, by rwa [List.getElem?_append_left hb], hxy⟩

theorem length_append (H : Heap) (e entry : Nat) : (append H e entry).length = H.length := by
  unfold append
  split
  · exact List.length_modify _ _ _
  · rfl

theorem length_terminate (H : Heap) (e : Nat) (error : String) :
    (terminate H e error).length = H.length := by
  unfold terminate
  dsimp only
  split <;> simp [setattr, ObjectGraph.Heap.assign]

theorem length_expired (node : Node) (texts : Texts) (H : Heap) (e : Nat)
    (timeout : ℚ) : (node.expired texts H e timeout).1.length = H.length + 2 := by
  simp [Node.expired, length_terminate, Node.entered, length_append]

theorem getElem?_terminate_ne {p e : Nat} (h : p ≠ e) (H : Heap) (error : String) :
    (terminate H e error)[p]? = H[p]? := by
  unfold terminate
  dsimp only
  split
  · exact getElem?_setattr_ne h _ _
  · exact (getElem?_setattr_ne h _ _).trans (getElem?_setattr_ne h _ _)

theorem getElem?_append_ne {p e : Nat} {H : Heap} (h : getattr H e .history ≠ .ref p)
    (entry : Nat) : (append H e entry)[p]? = H[p]? := by
  unfold append
  split
  next q hq =>
    have hne : q ≠ p := by
      rintro rfl
      exact h hq
    rw [List.getElem?_modify, Option.map_eq_map]
    simp [hne]
  · rfl

theorem getattr_extend (he : IsEnvelope H e) (l : Heap) (f : Field) :
    getattr (H ++ l) e f = getattr H e f := slot_of_prefix (List.prefix_append _ _) he.lt _ _

theorem getElem?_expired (he : IsEnvelope H e) (node : Node) (texts : Texts)
    (timeout : ℚ) (hp : p < H.length) (hne : p ≠ e) (hh : getattr H e .history ≠ .ref p) :
    (node.expired texts H e timeout).1[p]? = H[p]? := by
  have hh' : getattr (H ++ ([snapshot H e] ++ [⟨.entry node.nodeType node.capability "timeout",
      [.ref H.length]⟩])) e .history ≠ .ref p := by rwa [getattr_extend he]
  rw [Node.expired, Node.entered, getElem?_terminate_ne hne, List.append_assoc,
    getElem?_append_ne hh', List.getElem?_append_left hp]

theorem expired_iso (h : Iso R H K) (he : R e e) (node : Node) (texts : Texts)
    (timeout : ℚ) :
    ∃ S, (∀ p q, R p q → S p q) ∧ (∀ p q, S p q → R p q ∨ (K.length ≤ q ∧ q < K.length + 2)) ∧
      Iso S (node.expired texts H e timeout).1 (node.expired texts K e timeout).1 := by
  obtain ⟨S, hS, hnew, hi⟩ := entered_iso h he node "timeout"
  exact ⟨S, hS, hnew, terminate_iso hi (hS _ _ he) (node.timeoutMessage texts timeout)⟩

section Isolated

variable {node : Node} {texts : Texts} {timeout : ℚ} {s : Race} {c : Cell Class Atom}

theorem Race.isolated_init (hc : ObjectGraph.Heap.Closed H) (he : IsEnvelope H e) :
    (⟨(modelCopy H e).1, [(modelCopy H e).2], none⟩ : Race).Isolated H K e := by
  have hlen : (modelCopy H e).1.length = H.length + H.length := by
    rw [modelCopy, deepcopy, List.length_append, List.length_map]
  refine ⟨?_, ?_, fun _ => ⟨by rw [hlen]; omega, fun p hp => ?_⟩, fun d hd => ?_⟩
  · intro p hp
    obtain rfl := List.mem_singleton.mp hp
    have hlt := he.lt
    refine ⟨⟨?_, fun d hd => ?_⟩, ?_⟩
    · exact Nat.le_add_left _ _
    · cases hd
    · rw [hlen]
      exact Nat.add_lt_add_right hlt _
  · rintro p c q ⟨hp, -⟩ hcell hq
    have hcell' : (H.map (·.shift H.length))[p - H.length]? = some c :=
      (List.getElem?_append_right hp).symm.trans hcell
    rw [List.getElem?_map] at hcell'
    obtain ⟨c', hc', rfl⟩ := Option.map_eq_some_iff.mp hcell'
    obtain ⟨v, hv, hvq⟩ := List.mem_map.mp hq
    have hbelow := hc c' (List.mem_of_getElem? hc') v hv
    cases v with
    | atom a => cases hvq
    | ref r =>
      obtain rfl : r + H.length = q := Slot.ref.inj hvq
      refine ⟨⟨Nat.le_add_left _ _, fun d hd => ?_⟩, ?_⟩
      · cases hd
      · rw [hlen]
        exact Nat.add_lt_add_right hbelow _
  · exact getElem?_of_extends (deepcopy_extends H (.ref e)) hp
  · cases hd

theorem Race.Isolated.load (h : s.Isolated H K e) (hp : p ∈ s.held) (hcell : s.heap[p]? = some c)
    (hq : .ref q ∈ c.slots) : Race.Isolated H K e { s with held := q :: s.held } := by
  refine ⟨fun p' hp' => ?_, h.inside, h.before, h.after⟩
  rcases List.mem_cons.mp hp' with rfl | hp'
  · exact h.inside _ _ _ (h.held _ hp).1 hcell hq
  · exact h.held p' hp'

theorem Race.Isolated.store (h : s.Isolated H K e) (hp : p ∈ s.held)
    (hrefs : ∀ v ∈ c.slots, Held s.held v) :
    Race.Isolated H K e { s with heap := s.heap.set p c } := by
  obtain ⟨hown, hlt⟩ := h.held _ hp
  refine ⟨fun p' hp' => ?_, fun p' c' q hp' hcell hq => ?_, fun hd => ?_, fun d hd => ?_⟩
  · rw [List.length_set]
    exact h.held p' hp'
  · rw [List.length_set]
    rw [List.getElem?_set] at hcell
    split at hcell
    · cases hcell
      exact h.refs hrefs hq
    · exact h.inside p' c' q hp' hcell hq
  · obtain ⟨hlen, hbefore⟩ := h.before hd
    refine ⟨by rwa [List.length_set], fun p' hp' => ?_⟩
    rw [List.getElem?_set_ne (by have := hown.1; omega)]
    exact hbefore p' hp'
  · obtain ⟨h1, h2, R, hR, hee, hno⟩ := h.after d hd
    refine ⟨h1, by rwa [List.length_set], R, corresponds_set hR ?_, hee, hno⟩
    rintro a b hab rfl
    exact hno a _ hab hown

theorem Race.Isolated.alloc (h : s.Isolated H K e) (hrefs : ∀ v ∈ c.slots, Held s.held v) :
    Race.Isolated H K e { s with heap := s.heap ++ [c], held := s.heap.length :: s.held } := by
  obtain ⟨hlen, hdead⟩ := h.length_le
  have hsucc : (s.heap ++ [c]).length = s.heap.length + 1 := List.length_append
  have hown : s.Own H.length s.heap.length := by
    refine ⟨hlen, fun d hd h2 => absurd (hdead d hd) ?_⟩
    omega
  refine ⟨fun p hp => ?_, fun p c' q hp hcell hq => ?_, fun hd => ?_, fun d hd => ?_⟩
  · rw [hsucc]
    rcases List.mem_cons.mp hp with rfl | hp
    · exact ⟨hown, Nat.lt_succ_self _⟩
    · exact ⟨(h.held p hp).1, Nat.lt_succ_of_lt (h.held p hp).2⟩
  · rw [hsucc]
    have hin : s.Own H.length q ∧ q < s.heap.length := by
      rcases Nat.lt_or_ge p s.heap.length with hlt | hge
      · rw [List.getElem?_append_left hlt] at hcell
        exact h.inside p c' q hp hcell hq
      · rw [List.getElem?_append_right hge] at hcell
        obtain rfl := List.mem_singleton.mp (List.mem_of_getElem? hcell)
        exact h.refs hrefs hq
    exact ⟨hin.1, Nat.lt_succ_of_lt hin.2⟩
  · refine ⟨by rw [hsucc]; omega, fun p hp => ?_⟩
    rw [List.getElem?_append_left (by omega)]
    exact (h.before hd).2 p hp
  · obtain ⟨h1, h2, R, hR, hee, hno⟩ := h.after d hd
    exact ⟨h1, by rw [hsucc]; omega, R, corresponds_concat hR, hee, hno⟩

theorem Race.Isolated.expire (hc : ObjectGraph.Heap.Closed H) (he : IsEnvelope H e)
    (h : s.Isolated H (node.expired texts H e timeout).1 e) (hd : s.deadline = none) :
    Race.Isolated H (node.expired texts H e timeout).1 e
      { s with
        heap := (node.expired texts s.heap e timeout).1
        deadline := some s.heap.length } := by
  obtain ⟨hlen, hbefore⟩ := h.before hd
  have hlt := he.lt
  have heq : s.heap[e]? = H[e]? := hbefore e hlt
  have he' : IsEnvelope s.heap e := by
    obtain ⟨slots, hs, hl⟩ := he
    exact ⟨slots, heq.trans hs, hl⟩
  have hhist : getattr s.heap e .history = getattr H e .history := by
    rw [getattr, getattr, ObjectGraph.Heap.slot, heq]
    rfl
  have hlen' := length_expired node texts s.heap e timeout
  refine ⟨fun p hp => ?_, fun p c q hpq hcell hq => ?_, fun h => ?_, fun d hd' => ?_⟩
  · obtain ⟨⟨hn, _⟩, hp⟩ := h.held p hp
    refine ⟨⟨hn, fun d hd' => ?_⟩, by rw [hlen']; omega⟩
    cases hd'
    omega
  · obtain ⟨hp, hno⟩ := hpq
    have hno := hno s.heap.length rfl
    have hcl := (List.getElem?_eq_some_iff.mp hcell).1
    rw [hlen'] at hcl
    have hframe := getElem?_expired he' node texts timeout (p := p) (by omega)
      (by omega) fun hr => by
        have hb := getattr_below hc e .history
        rw [← hhist, hr] at hb
        exact absurd hb (Nat.not_lt.mpr hp)
    rw [hframe] at hcell
    obtain ⟨⟨hn, _⟩, hql⟩ := h.inside p c q ⟨hp, fun d hd' => by rw [hd] at hd'; cases hd'⟩
      hcell hq
    refine ⟨⟨hn, fun d hd' => ?_⟩, by rw [hlen']; omega⟩
    cases hd'
    omega
  · cases h
  · cases hd'
    obtain ⟨S, hS, hnew, hi⟩ := expired_iso (Iso.of_agree hc hbefore) ⟨hlt, rfl⟩ node texts
      timeout
    refine ⟨hlen, by rw [hlen'], S, hi.corresponds, hS _ _ ⟨hlt, rfl⟩, ?_⟩
    rintro a b hab ⟨hb, hno⟩
    rcases hnew a b hab with ⟨ha, rfl⟩ | hb'
    · omega
    · exact hno _ rfl hb'

end Isolated

section Recordable

theorem classOf_iso (h : Iso R H K) (he : R e e') (f : Field) : classOf H e f = classOf K e' f := by
  have hs := getattr_rel h he f
  unfold classOf
  cases hp : getattr H e f with
  | atom a =>
    rw [hp] at hs
    cases hq : getattr K e' f with
    | atom b => rfl
    | ref q =>
      rw [hq] at hs
      cases hs
  | ref p =>
    rw [hp] at hs
    cases hq : getattr K e' f with
    | atom b =>
      rw [hq] at hs
      cases hs
    | ref q =>
      rw [hq] at hs
      cases hs with
      | ref hs =>
        obtain ⟨c, d, hc, hd, hcd⟩ := h.corresponds p q hs
        dsimp only
        rw [hc, hd, Option.map_some, Option.map_some, hcd.label]

theorem recordable_iso (h : Iso R H K) (he : R e e') : recordable H e = recordable K e' := by
  unfold recordable
  rw [classOf_iso h he, classOf_iso h he]

/-- Of an envelope that can be recorded in, `process` leaves such a one, and returns such a one. -/
structure Recordable (process : Heap → Nat → Heap × Outcome) : Prop where
  kept : ∀ {H : Heap} {e : Nat}, recordable H e → recordable (process H e).1 e
  returned : ∀ {H : Heap} {e x : Nat}, recordable H e →
    (process H e).2 = .returned x success error action → recordable (process H e).1 x

variable {node : Node} {texts : Texts}

theorem settle_eq (h : recordable H e) (action message : String) :
    node.settle texts H e action message =
      (terminate (node.entered H e action) e message, .ok ⟨e, false, some message⟩) := by
  rw [Node.settle, Node.record, if_pos h]

theorem timeoutResult_eq (h : recordable H e) : node.timeoutResult texts H e timeout =
    ((node.expired texts H e timeout).1, .ok (node.expired texts H e timeout).2) :=
  settle_eq h _ _

theorem executeSync_eq (hp : Recordable node.process) (h : recordable H e) :
    node.executeSync texts H e = ((node.finished H e).1, .ok (node.finished H e).2) := by
  have hkept := hp.kept h
  have hreturned {x : Nat} {success : Bool} {error : Option String}
      {action : Option (Except String String)} (ho : (node.process H e).2 =
        .returned x success error action) : recordable (node.process H e).1 x := hp.returned h ho
  unfold Node.executeSync Node.finished
  rcases ho : node.process H e with ⟨H', ⟨errorType, message⟩ | ⟨x, success, error, action⟩⟩
  · rw [ho] at hkept
    exact settle_eq hkept _ _
  · rw [ho] at hkept hreturned
    dsimp only
    cases hm : Node.getActionDescription success error action with
    | error message => exact settle_eq hkept _ _
    | ok action =>
      dsimp only
      rw [Node.record, if_pos (hreturned rfl)]

theorem committed_eq (result : Heap × NodeResult) :
    Node.commitCompletedResult e (result.1, .ok result.2) =
      ((Node.committed e result).1, .ok (Node.committed e result).2) := rfl

end Recordable

theorem race_isolated (hc : ObjectGraph.Heap.Closed H) (he : IsEnvelope H e)
    (hr : recordable H e) (node : Node)
    (texts : Texts) (timeout : ℚ) :
    Invariant (race node texts H e timeout)
      (Race.Isolated H (node.expired texts H e timeout).1 e) where
  init := by
    rintro s rfl
    exact Race.isolated_init hc he
  step := by
    intro s _ t h st
    cases st with
    | load hp hcell hq => exact h.load hp hcell hq
    | store hp hrefs => exact h.store hp hrefs
    | alloc hrefs => exact h.alloc hrefs
    | deadline hd =>
      obtain ⟨hlen, hbefore⟩ := h.before hd
      have hrel := recordable_iso (Iso.of_agree hc hbefore) ⟨he.lt, rfl⟩
      rw [timeoutResult_eq (hrel ▸ hr)]
      exact h.expire hc he hd

theorem timeoutMessage_ne_empty (node : Node) (texts : Texts) (timeout : ℚ) :
    node.timeoutMessage texts timeout ≠ "" := by
  simp [Node.timeoutMessage, timeoutMessage]

/-- One entry in the history, `terminated`, `error`, and nothing else. -/
structure TimedOut (node : Node) (message : String) (H : Heap) (e h : Nat)
    (items : List (Slot Atom)) (K : Heap) : Prop where
  history : K[h]? = some ⟨.list, items ++ [.ref (H.length + 1)]⟩
  entry : K[H.length + 1]? = some ⟨.entry node.nodeType node.capability "timeout", [.ref H.length]⟩
  terminated : getattr K e .terminated = .atom (.bool true)
  error : getattr K e .error = .atom (.str message)
  fields : ∀ f, f ≠ .terminated → f ≠ .error → getattr K e f = getattr H e f
  others : ∀ p < H.length, p ≠ e → p ≠ h → K[p]? = H[p]?

theorem expired_timedOut (he : IsEnvelope H e) (hh : getattr H e .history = .ref h)
    (hl : H[h]? = some ⟨.list, items⟩) (node : Node) (texts : Texts) (timeout : ℚ) :
    TimedOut node (node.timeoutMessage texts timeout) H e h items
      (node.expired texts H e timeout).1 := by
  have hne : h ≠ e := by
    rintro rfl
    obtain ⟨slots, hs, -⟩ := he
    rw [hs] at hl
    cases hl
  have hlt := (List.getElem?_eq_some_iff.mp hl).1
  have helt := he.lt
  let entry : Cell Class Atom :=
    ⟨.entry node.nodeType node.capability "timeout", [.ref H.length]⟩
  let l : Heap := [snapshot H e, entry]
  let push (c : Cell Class Atom) : Cell Class Atom :=
    if c.label = .list then { c with slots := c.slots ++ [.ref (H.length + 1)] } else c
  have hpre : H <+: H ++ l := List.prefix_append _ _
  have hrec : node.entered H e "timeout" = (H ++ l).modify h push := by
    rw [Node.entered, append, List.append_assoc, getattr_extend he, hh]
    rfl
  have hre : IsEnvelope (node.entered H e "timeout") e := he.entered node e _
  have hterm : ∀ p, p ≠ e → (node.expired texts H e timeout).1[p]? =
      (node.entered H e "timeout")[p]? :=
    fun p hp => getElem?_terminate_ne hp _ (node.timeoutMessage texts timeout)
  have hT : (node.expired texts H e timeout).1 = setattr (setattr
      (node.entered H e "timeout") e .terminated (.atom (.bool true))) e .error
        (.atom (.str (node.timeoutMessage texts timeout))) := by
    rw [Node.expired, terminate]
    dsimp only
    rw [if_neg (timeoutMessage_ne_empty node texts timeout)]
  constructor
  · rw [hterm h hne, hrec, List.getElem?_modify, getElem?_of_extends hpre hlt, hl]
    simp [push]
  · have hhl : h ≠ H.length + 1 := by omega
    rw [hterm _ (by omega), hrec, List.getElem?_modify, List.getElem?_append_right (by omega)]
    simp [hhl, l, entry]
  · rw [hT, getattr_setattr_ne (by decide), getattr_setattr_same hre]
  · rw [hT, getattr_setattr_same (hre.setattr _ _ _)]
  · intro f h1 h2
    rw [hT, getattr_setattr_ne h2, getattr_setattr_ne h1, hrec]
    unfold getattr ObjectGraph.Heap.slot
    rw [List.getElem?_modify, getElem?_of_extends hpre helt]
    simp [hne]
  · intro p hp hpe hph
    rw [hterm p hpe, hrec, List.getElem?_modify, getElem?_of_extends hpre hp]
    simp [Ne.symm hph]

/-- The node with another `timeout_ms`. -/
def Node.withTimeout (node : Node) (timeoutMs : Option Int) : Node := { node with timeoutMs }

def Node.Ahead (node : Node) (timeoutSeconds : Option ℚ) : Prop :=
  ∀ t, node.effectiveTimeout timeoutSeconds = some t → 0 < t

theorem submit_inTime (node : Node) (texts : Texts) (H : Heap) (e : Nat)
    (timeout : Option ℚ) : node.submit texts .inTime H e timeout =
      Node.commitCompletedResult e
        (node.executeSync texts (modelCopy H e).1 (modelCopy H e).2) := by
  cases timeout <;> rfl

theorem executeAsync_inTime (h : Node.Ahead node timeoutSeconds) (texts : Texts) (H : Heap)
    (e : Nat) : node.executeAsync texts timeoutSeconds .inTime H e =
      Node.commitCompletedResult e
        (node.executeSync texts (modelCopy H e).1 (modelCopy H e).2) := by
  unfold Node.executeAsync
  split
  · exact submit_inTime node texts H e none
  next t ht =>
    rw [if_neg (not_le.mpr (h t ht))]
    exact submit_inTime node texts H e (some t)

theorem executeWithTimeout_inTime (h : Node.Ahead node timeoutSeconds) (texts : Texts)
    (H : Heap) (e : Nat) :
    node.executeWithTimeout texts timeoutSeconds .inTime H e =
        Node.commitCompletedResult e (node.executeSync texts H e) ∨
      node.executeWithTimeout texts timeoutSeconds .inTime H e =
        Node.commitCompletedResult e
          (node.executeSync texts (modelCopy H e).1 (modelCopy H e).2) := by
  unfold Node.executeWithTimeout
  split
  · exact .inl rfl
  next t ht =>
    rw [if_neg (not_le.mpr (h t ht))]
    exact .inr (submit_inTime node texts H e (some t))

theorem executeSync_copied (hp : Deterministic node.process) (hk : Recordable node.process)
    (hc : ObjectGraph.Heap.Closed H) (he : IsEnvelope H e) (hr : recordable H e) (texts : Texts) :
    (Node.commitCompletedResult e (node.executeSync texts H e)).2 =
        (Node.commitCompletedResult e
          (node.executeSync texts (modelCopy H e).1 (modelCopy H e).2)).2 ∧
      (Node.commitCompletedResult e (node.executeSync texts H e)).2.isOk ∧
      EqualFields (Node.commitCompletedResult e (node.executeSync texts H e)).1 e
        (Node.commitCompletedResult e
          (node.executeSync texts (modelCopy H e).1 (modelCopy H e).2)).1 e := by
  have hiso := Iso.shift hc fun p _ => getElem?_deepcopy H (.ref e) p
  have hcopy : recordable (modelCopy H e).1 (modelCopy H e).2 :=
    (recordable_iso hiso ⟨he.lt, rfl⟩).symm.trans hr
  obtain ⟨hresult, hfields⟩ := inPlace_copied hp hc he
  rw [executeSync_eq hk hr, executeSync_eq hk hcopy, committed_eq, committed_eq]
  exact ⟨congrArg Except.ok hresult, rfl, hfields⟩

theorem execute_late {node : Node} (hc : ObjectGraph.Heap.Closed H) (he : IsEnvelope H e)
    (hr : recordable H e) (ht : node.effectiveTimeout timeoutSeconds = some t)
    (hx : t ≤ 0 ∨ x = .late) (texts : Texts) :
    (node.executeWithTimeout texts timeoutSeconds x H e).2 =
        .ok ⟨e, false, some (node.timeoutMessage texts t)⟩ ∧
      (node.executeAsync texts timeoutSeconds x H e).2 =
        .ok ⟨e, false, some (node.timeoutMessage texts t)⟩ := by
  unfold Node.executeWithTimeout Node.executeAsync
  rw [ht]
  dsimp only
  by_cases h0 : t ≤ 0
  · rw [if_pos h0, timeoutResult_eq hr]
    exact ⟨rfl, rfl⟩
  · obtain rfl := hx.resolve_left h0
    have hsame : recordable H e = recordable (modelCopy H e).1 e :=
      recordable_iso (Iso.of_agree hc fun p hp =>
        getElem?_of_extends (deepcopy_extends H (.ref e)) hp) ⟨he.lt, rfl⟩
    have hcopy : recordable (modelCopy H e).1 e := hsame ▸ hr
    rw [if_neg h0, Node.submit]
    dsimp only
    rw [timeoutResult_eq hcopy]
    exact ⟨rfl, rfl⟩

/-- Of a `process` that leaves an envelope to record in: in time, the three ways return the same and
leave the caller's envelope with the same fields. After the deadline it is the original with one
entry more, whatever the abandoned worker does. -/
theorem execution_paths (hp : Deterministic node.process) (hk : Recordable node.process)
    (hc : ObjectGraph.Heap.Closed H) (he : IsEnvelope H e) (hr : recordable H e)
    (hh : getattr H e .history = .ref h) (hl : H[h]? = some ⟨.list, items⟩) (texts : Texts) :
    (∀ ms timeoutSeconds ms' timeoutSeconds', (node.withTimeout ms).Ahead timeoutSeconds →
      (node.withTimeout ms').Ahead timeoutSeconds' →
      let inPlace := (node.withTimeout none).executeWithTimeout texts none .inTime H e
      let timed := (node.withTimeout ms).executeWithTimeout texts timeoutSeconds .inTime H e
      let async := (node.withTimeout ms').executeAsync texts timeoutSeconds' .inTime H e
      inPlace.2.isOk ∧ inPlace.2 = timed.2 ∧ inPlace.2 = async.2 ∧
        EqualFields inPlace.1 e timed.1 e ∧ EqualFields inPlace.1 e async.1 e) ∧
    (∀ ms timeoutSeconds timeout x,
      (node.withTimeout ms).effectiveTimeout timeoutSeconds = some timeout →
      timeout ≤ 0 ∨ x = .late →
      ((node.withTimeout ms).executeWithTimeout texts timeoutSeconds x H e).2 =
          .ok ⟨e, false, some (node.timeoutMessage texts timeout)⟩ ∧
        ((node.withTimeout ms).executeAsync texts timeoutSeconds x H e).2 =
          .ok ⟨e, false, some (node.timeoutMessage texts timeout)⟩) ∧
    ∀ timeout, TimedOut node (node.timeoutMessage texts timeout) H e h items
        (node.timeoutResult texts H e timeout).1 ∧
      ∀ s, Reachable (race node texts H e timeout) s → s.deadline.isSome →
        EqualFields (node.timeoutResult texts H e timeout).1 e s.heap e := by
  refine ⟨fun ms t ms' t' ha ha' => ?_, fun ms t timeout x ht hx => ?_, fun timeout => ?_⟩
  · have hnode : ∀ m, Deterministic (node.withTimeout m).process := fun _ => hp
    obtain ⟨hresult, hok, hf⟩ := executeSync_copied (hnode none) hk hc he hr texts
    dsimp only
    rw [executeAsync_inTime ha' texts H e]
    rcases executeWithTimeout_inTime ha texts H e with ht | ht
    · rw [ht]
      exact ⟨hok, rfl, hresult, hf.trans hf.symm, hf⟩
    · rw [ht]
      exact ⟨hok, hresult, hresult, hf, hf⟩
  · exact execute_late hc he hr ht hx texts
  · rw [timeoutResult_eq hr]
    refine ⟨expired_timedOut he hh hl node texts timeout, fun s hs hd => ?_⟩
    obtain ⟨d, hd⟩ := Option.isSome_iff_exists.mp hd
    obtain ⟨-, -, R, hR, hee, -⟩ :=
      ((race_isolated hc he hr node texts timeout).reachable hs).after d hd
    exact Corresponds.equalFields hR hee

theorem deterministic_setattr (f : Field) (a : Atom) : Deterministic fun H e =>
    (setattr H e f (.atom a), .returned e true none none) where
  agrees h he := ⟨_, fun _ _ h => h, setattr_iso h he f .atom, .returned he⟩
  closed hc _ := closed_setattr hc (by trivial) _ f
  envelope h := h.setattr _ f _
  returned h ho := by
    cases ho
    exact h.setattr _ f _

theorem classOf_setattr_ne {f g : Field} (h : f ≠ g) (H : Heap) (e : Nat) (a : Atom) :
    classOf (setattr H e g (.atom a)) e f = classOf H e f := by
  unfold classOf
  rw [getattr_setattr_ne h]
  cases getattr H e f with
  | atom b => rfl
  | ref p =>
    dsimp only
    rw [setattr, ObjectGraph.Heap.assign, List.getElem?_modify]
    cases H[p]? with
    | none => rfl
    | some c =>
      by_cases hp : e = p
      · simp [hp]
      · simp [hp]

theorem recordable_setattr {f : Field} (hstate : f ≠ .state) (hhistory : f ≠ .history) (a : Atom) :
    Recordable fun H e => (setattr H e f (.atom a), .returned e true none none) := by
  have hsame (H : Heap) (e : Nat) : recordable (setattr H e f (.atom a)) e = recordable H e := by
    unfold recordable
    rw [classOf_setattr_ne hstate.symm, classOf_setattr_ne hhistory.symm]
  refine ⟨fun h => (hsame _ _).trans h, fun h ho => ?_⟩
  cases ho
  exact (hsame _ _).trans h

def sampleSlots : List (Slot Atom) :=
  [.atom (.str "req"), .atom (.str "custom"), .atom .none, .ref 1, .ref 2, .atom .none,
    .atom .none, .atom .none, .atom .none, .atom (.bool false), .atom .none]

def sampleHeap : Heap := [⟨.envelope, sampleSlots⟩, ⟨.dict [], []⟩, ⟨.list, []⟩]

def sampleNode (f : Field) (a : Atom) : Node :=
  ⟨"N", "c", none, fun H e => (setattr H e f (.atom a), .returned e true none none)⟩

theorem closed_sampleHeap : ObjectGraph.Heap.Closed sampleHeap := by
  simp [ObjectGraph.Heap.Closed, sampleHeap, sampleSlots, Slot.Below]

theorem execution_paths_fresh : ∃ (node : Node) (H : Heap) (e h : Nat) (items : List (Slot Atom)),
    ∀ texts : Texts,
    (∀ ms timeoutSeconds ms' timeoutSeconds', (node.withTimeout ms).Ahead timeoutSeconds →
      (node.withTimeout ms').Ahead timeoutSeconds' →
      let inPlace := (node.withTimeout none).executeWithTimeout texts none .inTime H e
      let timed := (node.withTimeout ms).executeWithTimeout texts timeoutSeconds .inTime H e
      let async := (node.withTimeout ms').executeAsync texts timeoutSeconds' .inTime H e
      inPlace.2.isOk ∧ inPlace.2 = timed.2 ∧ inPlace.2 = async.2 ∧
        EqualFields inPlace.1 e timed.1 e ∧ EqualFields inPlace.1 e async.1 e) ∧
    (∀ ms timeoutSeconds timeout x,
      (node.withTimeout ms).effectiveTimeout timeoutSeconds = some timeout →
      timeout ≤ 0 ∨ x = .late →
      ((node.withTimeout ms).executeWithTimeout texts timeoutSeconds x H e).2 =
          .ok ⟨e, false, some (node.timeoutMessage texts timeout)⟩ ∧
        ((node.withTimeout ms).executeAsync texts timeoutSeconds x H e).2 =
          .ok ⟨e, false, some (node.timeoutMessage texts timeout)⟩) ∧
    ∀ timeout, TimedOut node (node.timeoutMessage texts timeout) H e h items
        (node.timeoutResult texts H e timeout).1 ∧
      ∀ s, Reachable (race node texts H e timeout) s → s.deadline.isSome →
        EqualFields (node.timeoutResult texts H e timeout).1 e s.heap e :=
  ⟨sampleNode .next (.str "d"), sampleHeap, 0, 2, [], fun texts =>
    execution_paths (deterministic_setattr .next _)
      (recordable_setattr (by decide) (by decide) _) closed_sampleHeap ⟨sampleSlots, rfl, rfl⟩ rfl
      rfl rfl texts⟩

/-- A history set to `None` takes no entry: no path has a result, and in place it is the caller's. -/
theorem execution_paths_history : ∃ (node : Node) (H : Heap) (e : Nat),
    Deterministic node.process ∧ H.Closed ∧ IsEnvelope H e ∧ recordable H e ∧ ∀ texts : Texts,
      let inPlace := (node.withTimeout none).executeWithTimeout texts none .inTime H e
      let timed := (node.withTimeout none).executeWithTimeout texts (some 1) .inTime H e
      ¬ inPlace.2.isOk ∧ ¬ timed.2.isOk ∧ ¬ EqualFields inPlace.1 e timed.1 e := by
  refine ⟨sampleNode .history .none, sampleHeap, 0, deterministic_setattr .history _,
    closed_sampleHeap, ⟨sampleSlots, rfl, rfl⟩, rfl, fun texts => ?_⟩
  have hplace : (((sampleNode .history .none).withTimeout none).executeWithTimeout texts none
      .inTime sampleHeap 0) = (setattr sampleHeap 0 .history (.atom .none),
        .error (texts.refusal (some (.dict [])) none)) := rfl
  have htimed : (((sampleNode .history .none).withTimeout none).executeWithTimeout texts (some 1)
      .inTime sampleHeap 0) = (setattr (modelCopy sampleHeap 0).1 3 .history (.atom .none),
        .error (texts.refusal (some (.dict [])) none)) := by
    rfl
  dsimp only
  rw [hplace, htimed]
  refine ⟨by simp [Except.isOk, Except.toBool], by simp [Except.isOk, Except.toBool], fun h => ?_⟩
  obtain ⟨R, -, hs⟩ := h .history
  cases hs

end PrismPipe.Core
