import PrismPipe.Core.StorageThreads

/-! What the threads of `FileStorage` guarantee one another, and with it what each operation comes
to, whoever else is at the directory. -/

namespace PrismPipe.Storages

open KeyedStore Python Program

theorem temporaryPath_inj (U : Uuids) {p q : PyStr} {k l : Nat}
    (h : temporaryPath p (U.hex k) = temporaryPath q (U.hex l)) : k = l := by
  have hbody := congrArg List.reverse (List.append_cancel_right h)
  simp only [List.reverse_append, show (py ".").reverse = [0x2E] from rfl] at hbody
  have hlast : ∀ k p, ((U.hex k).reverse ++ ([0x2E] ++ p)).takeWhile (· ≠ (0x2E : CodePoint)) =
      (U.hex k).reverse := by
    intro k p
    rw [List.takeWhile_append_of_pos]
    · simp
    · intro c hc
      simpa using fun he : c = 0x2E => U.plain k (he ▸ List.mem_reverse.mp hc)
  have htaken := congrArg (List.takeWhile (· ≠ (0x2E : CodePoint))) hbody
  rw [hlast, hlast] at htaken
  exact U.injective (List.reverse_injective htaken)

theorem getPath_ne_temporaryPath (key path hex : PyStr) : getPath key ≠ temporaryPath path hex :=
  ne_temporaryPath (safeKey key) path hex

namespace Directory

@[simp] theorem under_concat_save (base : PyStr → Option PyStr)
    (journal : List (Operation PyStr PyStr)) (p path text : PyStr) :
    under base (journal ++ [.save p text]) path = if path = p then some text
      else under base journal path := by
  simp [under, Operation.leave]

@[simp] theorem under_concat_delete (base : PyStr → Option PyStr)
    (journal : List (Operation PyStr PyStr)) (p path : PyStr) :
    under base (journal ++ [.delete p]) path = if path = p then none
      else under base journal path := by
  simp [under, Operation.leave]

def Given (calls : Operation PyStr Json → Prop) (path text : PyStr) : Prop :=
  ∃ key value, calls (.save key value) ∧ getPath key = path ∧ text = value.dumps

variable (U : Uuids) (calls : Operation PyStr Json → Prop)

structure Sound (s : Directory) : Prop where
  shown : ∀ key, (s.entry (getPath key)).map s.text = under s.base s.journal (getPath key)
  files : ∀ path n, s.named path n → n < s.files
  named : ∀ path n, s.entry path = some n → s.named path n
  single : ∀ p q n, s.entry p = some n → s.entry q = some n → p = q
  issued : ∀ path k n, s.named (temporaryPath path (U.hex k)) n → k < s.uuids
  whole : ∀ key n, s.named (getPath key) n → s.synced n ∧ Given calls (getPath key) (s.text n)

structure Grows (s t : Directory) : Prop where
  uuids : s.uuids ≤ t.uuids
  base : t.base = s.base
  journal : s.journal <+: t.journal
  named : ∀ path n, s.named path n → t.named path n
  text : ∀ key n, s.named (getPath key) n → t.text n = s.text n
  party : ∀ k, k < s.uuids → t.party k = s.party k

def Mine (i : Nat) (s t : Directory) : Prop :=
  ∀ k, k < s.uuids → s.party k = i → k < t.uuids ∧ t.party k = i ∧
    ∀ path, t.entry (temporaryPath path (U.hex k)) = s.entry (temporaryPath path (U.hex k)) ∧
      ∀ n, s.entry (temporaryPath path (U.hex k)) = some n →
        t.text n = s.text n ∧ t.synced n = s.synced n ∧ ∀ p, t.named p n → s.named p n

theorem Grows.refl (s : Directory) : Grows s s :=
  ⟨le_rfl, rfl, List.prefix_rfl, fun _ _ h => h, fun _ _ _ => rfl, fun _ _ => rfl⟩

theorem Grows.trans (h : Grows s t) (k : Grows t u) : Grows s u where
  uuids := h.uuids.trans k.uuids
  base := k.base.trans h.base
  journal := h.journal.trans k.journal
  named path n hn := k.named path n (h.named path n hn)
  text key n hn := (k.text key n (h.named _ n hn)).trans (h.text key n hn)
  party l hl := (k.party l (hl.trans_le h.uuids)).trans (h.party l hl)

variable {U calls}

theorem Mine.refl (i : Nat) (s : Directory) : Mine U i s s :=
  fun _ hk hi => ⟨hk, hi, fun _ => ⟨rfl, fun _ _ => ⟨rfl, rfl, fun _ h => h⟩⟩⟩

theorem Mine.trans (h : Mine U i s t) (h' : Mine U i t u) : Mine U i s u := by
  intro k hk hi
  obtain ⟨hk', hi', hst⟩ := h k hk hi
  obtain ⟨hk'', hi'', htu⟩ := h' k hk' hi'
  refine ⟨hk'', hi'', fun path => ⟨(htu path).1.trans (hst path).1, fun n hn => ?_⟩⟩
  obtain ⟨htext, hsync, hnamed⟩ := (hst path).2 n hn
  obtain ⟨htext', hsync', hnamed'⟩ := (htu path).2 n ((hst path).1.trans hn)
  exact ⟨htext'.trans htext, hsync'.trans hsync, fun p hp => hnamed p (hnamed' p hp)⟩

end Directory

open Directory

def contract (U : Uuids) (calls : Operation PyStr Json → Prop) : Contract Directory where
  inv := Sound U calls
  grows := Grows
  mine := Mine U
  grows_refl := Grows.refl
  grows_trans := Grows.trans
  mine_refl := Mine.refl
  mine_trans := Mine.trans

namespace Directory

variable {U : Uuids} {calls : Operation PyStr Json → Prop} {s t : Directory}

structure Kept (U : Uuids) (calls : Operation PyStr Json → Prop) (i : Nat) (s t : Directory) :
    Prop where
  inv : Sound U calls t
  grows : Grows s t
  mine : ∀ j, j ≠ i → Mine U j s t

theorem Kept.refl (h : Sound U calls s) : Kept U calls i s s :=
  ⟨h, .refl s, fun j _ => .refl j s⟩

/-- The `k`-th uuid is the party's. -/
structure Owns (U : Uuids) (i k : Nat) (s : Directory) : Prop where
  lt : k < s.uuids
  party : s.party k = i

theorem Owns.grows (h : Owns U i k s) (hg : Grows s t) : Owns U i k t :=
  ⟨h.lt.trans_le hg.uuids, (hg.party k h.lt).trans h.party⟩

structure Holds (U : Uuids) (i k : Nat) (path : PyStr) (n : Nat) (text : PyStr) (s : Directory) :
    Prop extends Owns U i k s where
  entry : s.entry (temporaryPath path (U.hex k)) = some n
  text : s.text n = text
  only : ∀ p, s.named p n → p = temporaryPath path (U.hex k)

theorem Holds.rely (h : Holds U i k path n x s) (hr : (contract U calls).rely i s t) :
    Holds U i k path n x t := by
  obtain ⟨hlt, hparty, hmine⟩ := hr.2 k h.lt h.party
  obtain ⟨hentry, hfile⟩ := hmine path
  obtain ⟨htext, -, hnamed⟩ := hfile n h.entry
  exact ⟨⟨hlt, hparty⟩, hentry.trans h.entry, htext.trans h.text,
    fun p hp => h.only p (hnamed p hp)⟩

theorem Holds.synced_rely (h : Holds U i k path n x s) (hr : (contract U calls).rely i s t) :
    t.synced n = s.synced n :=
  ((hr.2 k h.lt h.party).2.2 path).2 n h.entry |>.2.1

theorem Holds.not_other (hs : Sound U calls s) (h : Holds U i k path n x s) (hj : j ≠ i)
    (hl : s.party l = j) : s.entry (temporaryPath q (U.hex l)) ≠ some n := by
  intro he
  cases temporaryPath_inj U (h.only _ (hs.named _ _ he))
  exact hj (hl.symm.trans h.party)

theorem Holds.not_shown (h : Holds U i k path n x s) (key : PyStr) :
    ¬ s.named (getPath key) n :=
  fun hn => getPath_ne_temporaryPath key path (U.hex k) (h.only _ hn)

theorem kept_of_file (hs : Sound U calls s) (h : Holds U i k path n x s)
    (text' : Nat → PyStr) (synced' : Nat → Bool) (htext : ∀ m, m ≠ n → text' m = s.text m)
    (hsynced : ∀ m, m ≠ n → synced' m = s.synced m) :
    Kept U calls i s { s with text := text', synced := synced' } := by
  have hshown : ∀ key m, s.named (getPath key) m → m ≠ n := by
    rintro key m hm rfl
    exact h.not_shown key hm
  refine ⟨⟨fun key => ?_, hs.files, hs.named, hs.single, hs.issued, fun key m hm => ?_⟩,
    ⟨le_rfl, rfl, List.prefix_rfl, fun _ _ h => h, fun key m hm => ?_, fun _ _ => rfl⟩,
    fun j hj l hl hparty => ⟨hl, hparty, fun q => ⟨rfl, fun m hm => ?_⟩⟩⟩
  · rw [← hs.shown key]
    cases he : s.entry (getPath key) with
    | none => rfl
    | some m => exact congrArg some (htext m (hshown key m (hs.named _ _ he)))
  · have hne := hshown key m hm
    simp only [htext m hne, hsynced m hne]
    exact hs.whole key m hm
  · exact htext m (hshown key m hm)
  · have hne : m ≠ n := by
      rintro rfl
      exact h.not_other hs hj hparty hm
    exact ⟨htext m hne, hsynced m hne, fun _ hp => hp⟩

theorem kept_setText (hs : Sound U calls s) (h : Holds U i k path n x s) (text' : PyStr) :
    Kept U calls i s (s.setText n text') :=
  kept_of_file hs h _ _ (fun _ hm => Function.update_of_ne hm _ _)
    (fun _ hm => Function.update_of_ne hm _ _)

theorem kept_sync (hs : Sound U calls s) (h : Holds U i k path n x s) :
    Kept U calls i s (s.sync n) :=
  kept_of_file hs h s.text _ (fun _ _ => rfl) (fun _ hm => Function.update_of_ne hm _ _)

theorem Holds.setText (h : Holds U i k path n x s) (text' : PyStr) :
    Holds U i k path n text' (s.setText n text') :=
  ⟨⟨h.lt, h.party⟩, h.entry, Function.update_self .., h.only⟩

theorem Holds.sync (h : Holds U i k path n x s) : Holds U i k path n x (s.sync n) :=
  ⟨⟨h.lt, h.party⟩, h.entry, h.text, h.only⟩

theorem kept_issue (hs : Sound U calls s) (i : Nat) : Kept U calls i s (s.issue i) := by
  refine ⟨⟨hs.shown, hs.files, hs.named, hs.single,
      fun path k n hn => (hs.issued path k n hn).trans (Nat.lt_succ_self _), hs.whole⟩,
    ⟨Nat.le_succ _, rfl, List.prefix_rfl, fun _ _ h => h, fun _ _ _ => rfl, fun k hk => ?_⟩,
    fun j _ k hk hparty => ⟨hk.trans (Nat.lt_succ_self _), ?_, fun _ => ⟨rfl, fun _ _ => ⟨rfl, rfl,
      fun _ h => h⟩⟩⟩⟩
  · exact Function.update_of_ne hk.ne _ _
  · exact (Function.update_of_ne hk.ne _ _).trans hparty

theorem owns_issue (s : Directory) (i : Nat) : Owns U i s.uuids (s.issue i) :=
  ⟨Nat.lt_succ_self _, Function.update_self ..⟩

theorem kept_made (hs : Sound U calls s) (i : Nat) : Kept U calls i s s.made := by
  have hne : ∀ path m, s.named path m → m ≠ s.files := fun path m hm => (hs.files path m hm).ne
  refine ⟨⟨fun key => ?_, fun path m hm => (hs.files path m hm).trans (Nat.lt_succ_self _),
      hs.named, hs.single, hs.issued, fun key m hm => ?_⟩,
    ⟨le_rfl, rfl, List.prefix_rfl, fun _ _ h => h,
      fun key m hm => Function.update_of_ne (hne _ m hm) _ _, fun _ _ => rfl⟩,
    fun j _ l hl hparty => ⟨hl, hparty, fun q => ⟨rfl, fun m hm => ?_⟩⟩⟩
  · rw [show under s.made.base s.made.journal = under s.base s.journal from rfl, ← hs.shown key]
    cases he : s.entry (getPath key) with
    | none => simp [made, setText, he]
    | some m =>
      have hm := hne _ m (hs.named _ _ he)
      simp [made, setText, he, Function.update_of_ne hm]
  · have hm' := hne _ m hm
    simp only [made, setText, Function.update_of_ne hm']
    exact hs.whole key m hm
  · have hm' := hne _ m (hs.named _ _ hm)
    exact ⟨Function.update_of_ne hm' _ _, Function.update_of_ne hm' _ _, fun _ hp => hp⟩

def Free (U : Uuids) (i : Nat) (s : Directory) (path : PyStr) : Prop :=
  ∀ q l, path = temporaryPath q (U.hex l) → Owns U i l s

theorem free_getPath (U : Uuids) (i : Nat) (s : Directory) (key : PyStr) :
    Free U i s (getPath key) :=
  fun q l h => absurd h (getPath_ne_temporaryPath key q (U.hex l))

theorem Owns.free (h : Owns U i k s) (path : PyStr) :
    Free U i s (temporaryPath path (U.hex k)) := by
  intro q l hl
  cases temporaryPath_inj U hl
  exact h

theorem Free.ne (h : Free U i s path) (hj : j ≠ i) (hl : s.party l = j) (q : PyStr) :
    temporaryPath q (U.hex l) ≠ path := by
  intro he
  exact hj (hl.symm.trans (h q l he.symm).party)

theorem remove_entry (h : q ≠ path) : (s.remove path).entry q = s.entry q :=
  Function.update_of_ne h _ _

theorem link_entry (h : q ≠ path) : (s.link path n).entry q = s.entry q :=
  Function.update_of_ne h _ _

theorem kept_remove (hs : Sound U calls s) (h : Free U i s path) :
    Kept U calls i s (s.remove path) := by
  have hentry : ∀ q n, (s.remove path).entry q = some n → s.entry q = some n := by
    intro q n hq
    by_cases hp : q = path
    · subst hp
      simp [remove] at hq
    · rwa [remove_entry hp] at hq
  refine ⟨⟨fun key => ?_, hs.files, fun q n hq => hs.named q n (hentry q n hq),
      fun p q n hp hq => hs.single p q n (hentry p n hp) (hentry q n hq), hs.issued, hs.whole⟩,
    ⟨le_rfl, rfl, List.prefix_append _ _, fun _ _ h => h, fun _ _ _ => rfl, fun _ _ => rfl⟩,
    fun j hj l hl hparty => ⟨hl, hparty, fun q => ⟨?_, fun n _ => ⟨rfl, rfl, fun _ hp => hp⟩⟩⟩⟩
  · by_cases hp : getPath key = path
    · simp [remove, hp]
    · simp [remove, hp, hs.shown key]
  · exact Function.update_of_ne (h.ne hj hparty q) _ _

theorem kept_link (hs : Sound U calls s) (h : Free U i s path) (hn : n < s.files)
    (hnone : ∀ q, s.entry q ≠ some n) (hissued : ∀ q l, path = temporaryPath q (U.hex l) →
      l < s.uuids)
    (hwhole : ∀ key, path = getPath key → s.synced n ∧ Given calls path (s.text n)) :
    Kept U calls i s (s.link path n) := by
  have hentry : ∀ q m, (s.link path n).entry q = some m →
      s.entry q = some m ∨ q = path ∧ m = n := by
    intro q m hq
    by_cases hp : q = path
    · subst hp
      simp only [link, Function.update_self, Option.some.injEq] at hq
      exact .inr ⟨rfl, hq.symm⟩
    · rw [link_entry hp] at hq
      exact .inl hq
  refine ⟨⟨fun key => ?_, ?_, ?_, ?_, ?_, ?_⟩,
    ⟨le_rfl, rfl, List.prefix_append _ _, fun _ _ h => .inl h, fun _ _ _ => rfl, fun _ _ => rfl⟩,
    fun j hj l hl hparty => ⟨hl, hparty, fun q => ⟨?_, fun m hm => ⟨rfl, rfl, ?_⟩⟩⟩⟩
  · by_cases hp : getPath key = path
    · simp [link, hp]
    · simp [link, hp, hs.shown key]
  · rintro q m (hm | ⟨rfl, rfl⟩)
    · exact hs.files q m hm
    · exact hn
  · intro q m hq
    rcases hentry q m hq with hq | ⟨rfl, rfl⟩
    · exact .inl (hs.named q m hq)
    · exact .inr ⟨rfl, rfl⟩
  · intro p q m hp hq
    rcases hentry p m hp with hp' | ⟨hp', hm⟩
    · rcases hentry q m hq with hq' | ⟨-, hm⟩
      · exact hs.single p q m hp' hq'
      · exact absurd (hm ▸ hp') (hnone p)
    · rcases hentry q m hq with hq' | ⟨hq', -⟩
      · exact absurd (hm ▸ hq') (hnone q)
      · exact hp'.trans hq'.symm
  · rintro q l m (hm | ⟨hq, -⟩)
    · exact hs.issued q l m hm
    · exact hissued q l hq.symm
  · rintro key m (hm | ⟨hkey, rfl⟩)
    · exact hs.whole key m hm
    · rw [hkey]
      exact hwhole key hkey.symm
  · exact Function.update_of_ne (h.ne hj hparty q) _ _
  · rintro p (hp | ⟨-, rfl⟩)
    · exact hp
    · exact absurd hm (hnone _)

theorem Kept.trans (h : Kept U calls i s t) (k : Kept U calls i t u) : Kept U calls i s u :=
  ⟨k.inv, h.grows.trans k.grows, fun j hj => (h.mine j hj).trans (k.mine j hj)⟩

theorem kept_create (hs : Sound U calls s) (h : Owns U i k s) :
    Kept U calls i s (s.made.link (temporaryPath path (U.hex k)) s.files) ∧
      Holds U i k path s.files [] (s.made.link (temporaryPath path (U.hex k)) s.files) := by
  have hmade := kept_made hs i
  have hown : Owns U i k s.made := ⟨h.lt, h.party⟩
  have hnone : ∀ q, s.entry q ≠ some s.files :=
    fun q hq => (hs.files q _ (hs.named q _ hq)).false
  refine ⟨hmade.trans (kept_link hmade.inv (hown.free path) (Nat.lt_succ_self _) hnone ?_ ?_), ?_⟩
  · intro q l hl
    exact (hown.free path q l hl).lt
  · intro key hkey
    exact absurd hkey.symm (getPath_ne_temporaryPath key path _)
  · refine ⟨⟨h.lt, h.party⟩, Function.update_self .., Function.update_self .., ?_⟩
    rintro p (hp | ⟨rfl, -⟩)
    · exact absurd (hs.files p _ hp) (lt_irrefl _)
    · rfl

theorem kept_replace {key : PyStr} (hs : Sound U calls s) (h : Holds U i k (getPath key) n x s)
    (hsync : s.synced n) (hgiven : Given calls (getPath key) x) :
    Kept U calls i s
      ((s.remove (temporaryPath (getPath key) (U.hex k))).link (getPath key) n) := by
  have hremove := kept_remove hs (h.toOwns.free (getPath key))
  refine hremove.trans (kept_link hremove.inv (free_getPath U i _ key)
    (hs.files _ n (hs.named _ n h.entry)) ?_ ?_ ?_)
  · intro q hq
    by_cases hp : q = temporaryPath (getPath key) (U.hex k)
    · subst hp
      simp [remove] at hq
    · rw [remove_entry hp] at hq
      exact hp (hs.single q _ n hq h.entry)
  · intro q l hl
    exact absurd hl (getPath_ne_temporaryPath key q _)
  · intro _ _
    refine ⟨hsync, ?_⟩
    rwa [show (s.remove (temporaryPath (getPath key) (U.hex k))).text n = x from h.text]

theorem Lost.sound (hs : Sound U calls s) (h : Lost s t) : Sound U calls t where
  shown key := by rw [h.base, h.journal]; rfl
  files path n hn := by
    rw [h.named] at hn
    rw [h.files]
    exact hs.files path n hn
  named path n hn := by
    rw [h.named]
    exact h.entry path n hn
  single := h.single
  issued path k n hn := by
    rw [h.named] at hn
    rw [h.uuids]
    exact hs.issued path k n hn
  whole key n hn := by
    rw [h.named] at hn
    obtain ⟨hsync, hgiven⟩ := hs.whole key n hn
    obtain ⟨htext, hsync'⟩ := h.text n hsync
    rw [htext]
    exact ⟨hsync', hgiven⟩

theorem sound_init : Sound U calls init where
  shown _ := rfl
  files _ _ := False.elim
  named _ _ h := nomatch h
  single _ _ _ h := nomatch h
  issued _ _ _ := False.elim
  whole _ _ := False.elim

def Between (s t : Directory) (h : List (Operation PyStr PyStr)) : Prop :=
  s.journal <+: h ∧ h <+: t.journal

theorem Between.later (h : Between s t past) (hg : Grows t u) : Between s u past :=
  ⟨h.1, h.2.trans hg.journal⟩

theorem Grows.between (h : Grows s t) : Between s t t.journal := ⟨h.journal, List.prefix_rfl⟩

end Directory

inductive Linear (loads : PyStr → Except PyStr Json) (s t : Directory) :
    Operation PyStr Json → KeyedStore.Answer Json → Prop
  | save : Between s t past → Between s t (past ++ [.save (getPath key) value.dumps]) →
      Linear loads s t (.save key value) .done
  | delete : Between s t past → Between s t (past ++ [.delete (getPath key)]) →
      Linear loads s t (.delete key) .done
  | found : Between s t past → under s.base past (getPath key) = some x →
      loads x = .ok value → Linear loads s t (.load key) (.loaded (some value))
  | absent : Between s t past → under s.base past (getPath key) = none →
      Linear loads s t (.load key) (.loaded none)
  | exist : Between s t past →
      Linear loads s t (.exist key) (.existing (under s.base past (getPath key)).isSome)

/-- Why an operation raises: the directory failed it, or it is a `save` of what `json.dump` refuses,
or a `load` whose file went away between its two looks at the name, or holds no JSON. -/
inductive Failed (stops : Json → Option (PyStr × PyStr)) (loads : PyStr → Except PyStr Json)
    (faults : Prop) (s t : Directory) : Operation PyStr Json → Prop
  | fault {op : Operation PyStr Json} : faults → Failed stops loads faults s t op
  | refused : (stops value).isSome → Failed stops loads faults s t (.save key value)
  | deleted : Between s t past → past <+: past' → Between s t past' →
      (under s.base past (getPath key)).isSome → under s.base past' (getPath key) = none →
      Failed stops loads faults s t (.load key)
  | unreadable : Between s t past → under s.base past (getPath key) = some x →
      loads x = .error reason → Failed stops loads faults s t (.load key)

def Came (stops : Json → Option (PyStr × PyStr)) (loads : PyStr → Except PyStr Json)
    (faults : Prop) (op : Operation PyStr Json) (s : Directory) :
    Except FileError (KeyedStore.Answer Json) → Directory → Prop
  | .ok a, t => Linear loads s t op a
  | .error _, t => Failed stops loads faults s t op

def Intact (calls : Operation PyStr Json → Prop) (loads : PyStr → Except PyStr Json) :
    Operation PyStr Json → Except FileError (KeyedStore.Answer Json) → Prop
  | .load key, .ok (.loaded (some value)) => ∃ text, Given calls (getPath key) text ∧
      loads text = .ok value
  | _, _ => True

theorem Came.later {stops : Json → Option (PyStr × PyStr)} {loads : PyStr → Except PyStr Json}
    {faults : Prop} {op : Operation PyStr Json} {r : Except FileError (KeyedStore.Answer Json)}
    (hg : Grows t u) (h : Came stops loads faults op s r t) : Came stops loads faults op s r u := by
  cases r with
  | ok a =>
    cases h with
    | save hp hq => exact Linear.save (hp.later hg) (hq.later hg)
    | delete hp hq => exact Linear.delete (hp.later hg) (hq.later hg)
    | found hp hx hv => exact Linear.found (hp.later hg) hx hv
    | absent hp hx => exact Linear.absent (hp.later hg) hx
    | exist hp => exact Linear.exist (hp.later hg)
  | error e =>
    cases h with
    | fault hf => exact Failed.fault hf
    | refused hs => exact Failed.refused hs
    | deleted hp hpq hq hx hy => exact Failed.deleted (hp.later hg) hpq (hq.later hg) hx hy
    | unreadable hp hx hv => exact Failed.unreadable (hp.later hg) hx hv

section Threads

variable {U : Uuids} {faults : Prop} {calls : Operation PyStr Json → Prop} {i : Nat}
  {s s₀ : Directory} {stops : Json → Option (PyStr × PyStr)} {loads : PyStr → Except PyStr Json}

theorem fulfils_os {o : Syscall} {Q : o.Value → Directory → Prop}
    {E : FileError → Directory → Prop}
    (h : ∀ t r u, (contract U calls).rely i s t → Sound U calls t →
      Directory.Step U faults i t o r u → Kept U calls i t u ∧ outcome Q E (r.mapError .os) u) :
    Fulfils (directory U faults) (contract U calls) i (os o) Q E s := by
  intro t r u hr hs st
  obtain ⟨hk, hout⟩ := h t r u hr hs st
  exact ⟨hk.inv, hk.grows, hk.mine, hout⟩

theorem fulfils_writePieces (pieces : List PyStr) (h : Holds U i k path n x s) :
    Fulfils (directory U faults) (contract U calls) i (writePieces n pieces)
      (fun _ t => Holds U i k path n (x ++ pieces.flatten) t)
      (fun _ t => Owns U i k t ∧ faults) s := by
  induction pieces generalizing s x with
  | nil => exact .pure (by simpa using h)
  | cons piece pieces ih =>
    refine Fulfils.bind (Q := fun _ t => Holds U i k path n (x ++ piece) t) (fulfils_os ?_) ?_
    · intro t r u hr hs st
      have ht := h.rely hr
      cases st with
      | write =>
        rw [ht.text]
        exact ⟨kept_setText hs ht _, ht.setText _⟩
      | torn hf =>
        have hkept := fun text => kept_setText hs ht text
        exact ⟨hkept _, ht.toOwns.grows (hkept _).grows, hf⟩
      | fail hf => exact ⟨.refl hs, ht.toOwns, hf⟩
    · intro _ t _ ht
      simpa [List.append_assoc] using ih ht

theorem fulfils_saveText {B : Buffer} {key : PyStr} {value : Json} (h : Owns U i k s)
    (hnone : s.entry (temporaryPath (getPath key) (U.hex k)) = none)
    (hgrows : Grows s₀ s) (hcall : calls (.save key value)) :
    Fulfils (directory U faults) (contract U calls) i
      (saveText B stops (getPath key) (temporaryPath (getPath key) (U.hex k)) value)
      (fun _ t => Linear loads s₀ t (.save key value) .done)
      (fun _ t => Owns U i k t ∧ (faults ∨ (stops value).isSome)) s := by
  refine Fulfils.bind (Q := fun n t => Holds U i k (getPath key) n [] t) (fulfils_os ?_) ?_
  · intro t r u hr hs st
    have howns := h.grows hr.1
    have hnone' := ((hr.2 k h.lt h.party).2.2 (getPath key)).1.trans hnone
    cases st with
    | create => exact kept_create hs howns
    | truncate he => cases hnone'.symm.trans he
    | fail hf => exact ⟨.refl hs, howns, .inl hf⟩
  intro n t ht hholds
  have hwrite (text : PyStr) : Fulfils (directory U faults) (contract U calls) i
      (writePieces n (B.pieces text)) (fun _ u => Holds U i k (getPath key) n text u)
      (fun _ u => Owns U i k u ∧ (faults ∨ (stops value).isSome)) t := by
    refine Meets.mono (fulfils_writePieces (B.pieces text) hholds) ?_
    rintro (e | a) u hr
    · exact ⟨hr.1, .inl hr.2⟩
    · change Holds U i k (getPath key) n ([] ++ (B.pieces text).flatten) u at hr
      rwa [List.nil_append, B.flatten_pieces] at hr
  cases hstops : stops value with
  | some stop =>
    rw [hstops] at hwrite
    exact Fulfils.bind (hwrite stop.1) fun _ u _ hholds => .throw ⟨hholds.toOwns, .inr rfl⟩
  | none =>
  rw [hstops] at hwrite
  refine Fulfils.bind (hwrite value.dumps) ?_
  rintro _ u hu hholds
  refine Fulfils.bind (Q := fun _ t => Holds U i k (getPath key) n value.dumps t ∧ t.synced n)
    (fulfils_os ?_) ?_
  · intro v r w hr hs st
    have hv := hholds.rely hr
    cases st with
    | fsync => exact ⟨kept_sync hs hv, hv.sync, Function.update_self ..⟩
    | fail hf => exact ⟨.refl hs, hv.toOwns, .inl hf⟩
  · rintro _ v hv ⟨hholds, hsync⟩
    refine fulfils_os fun w r x hr hs st => ?_
    have hw := hholds.rely hr
    have hsync' : w.synced n := (hholds.synced_rely hr).trans hsync
    cases st with
    | replace he =>
      cases hw.entry.symm.trans he
      have hkept := kept_replace hs hw hsync' ⟨key, value, hcall, rfl, rfl⟩
      have hall : Grows s₀ w := hgrows.trans (ht.trans (hu.trans (hv.trans hr.1)))
      refine ⟨hkept, ?_⟩
      have hlinked : ((w.remove (temporaryPath (getPath key) (U.hex k))).link (getPath key)
          n).journal = w.journal ++ [.delete (temporaryPath (getPath key) (U.hex k))] ++
            [.save (getPath key) value.dumps] := by
        rw [← hw.text]
        rfl
      have hpast := List.prefix_append w.journal [.delete (temporaryPath (getPath key) (U.hex k))]
      refine Linear.save ⟨hall.journal.trans hpast, ?_⟩ ⟨(hall.journal.trans hpast).trans ?_, ?_⟩
      · rw [hlinked]
        exact List.prefix_append _ _
      · exact List.prefix_append _ _
      · rw [hlinked]
    | unreplaced he => cases hw.entry.symm.trans he
    | fail hf => exact ⟨.refl hs, hw.toOwns, .inl hf⟩

theorem fulfils_saveSync (B : Buffer) {key : PyStr} {value : Json} (hgrows : Grows s₀ s)
    (hcall : calls (.save key value)) :
    Fulfils (directory U faults) (contract U calls) i (saveSync B stops key value)
      (fun a t => Linear loads s₀ t (.save key value) a)
      (fun _ _ => faults ∨ (stops value).isSome) s := by
  refine Fulfils.bind (Q := fun hex t => ∃ k, hex = U.hex k ∧ Owns U i k t ∧
    t.entry (temporaryPath (getPath key) hex) = none) (fulfils_os ?_) ?_
  · intro t r u hr hs st
    cases st with
    | uuid4 =>
      refine ⟨kept_issue hs i, _, rfl, owns_issue t i, Option.eq_none_iff_forall_ne_some.mpr ?_⟩
      intro n hn
      exact lt_irrefl _ (hs.issued _ _ n (hs.named _ n hn))
    | fail _ hne => exact absurd rfl hne
  rintro _ t ht ⟨k, rfl, howns, hnone⟩
  refine Fulfils.bind (Q := fun _ u => Linear loads s₀ u (.save key value) .done) ?_ ?_
  · refine Fulfils.tryCatch (fulfils_saveText howns hnone (hgrows.trans ht) hcall) ?_
    rintro e u - ⟨howns', hf⟩
    refine Fulfils.bind (Q := fun _ _ => True) (fulfils_os fun v r w hr hs st => ?_) ?_
    · have howns'' := howns'.grows hr.1
      cases st with
      | unlink => exact ⟨kept_remove hs (howns''.free _), trivial⟩
      | fail => exact ⟨.refl hs, hf⟩
    · exact fun _ _ _ _ => .throw hf
  · exact fun _ u _ hlinear => .pure hlinear

theorem fulfils_loadText {key : PyStr} (hb : Between s₀ s past) (hgrows : Grows s₀ s)
    (hsome : (under s₀.base past (getPath key)).isSome) :
    Fulfils (directory U faults) (contract U calls) i (loadText loads (getPath key))
      (fun value t => Linear loads s₀ t (.load key) (.loaded (some value)) ∧
        Intact calls loads (.load key) (.ok (.loaded (some value))))
      (fun _ t => Failed stops loads faults s₀ t (.load key)) s := by
  refine Fulfils.bind (Q := fun n t => Grows s₀ t ∧ t.named (getPath key) n ∧
    under s₀.base t.journal (getPath key) = some (t.text n)) (fulfils_os ?_) ?_
  · intro t r u hr hs st
    have ht := hgrows.trans hr.1
    have hshown := hs.shown key
    rw [ht.base] at hshown
    cases st with
    | «open» he =>
      rw [he] at hshown
      exact ⟨.refl hs, ht, hs.named _ _ he, hshown.symm⟩
    | missing he =>
      rw [he] at hshown
      exact ⟨.refl hs, .deleted (hb.later hr.1) (hb.2.trans hr.1.journal) ht.between hsome
        hshown.symm⟩
    | fail hf => exact ⟨.refl hs, .fault hf⟩
  rintro n t ht ⟨hall, hnamed, hfound⟩
  refine Fulfils.bind (Q := fun text u => Grows t u ∧ text = t.text n ∧
    Given calls (getPath key) text) (fulfils_os ?_) ?_
  · intro u r v hr hs st
    cases st with
    | read =>
      have htext := hr.1.text key n hnamed
      exact ⟨.refl hs, hr.1, htext, (hs.whole key n (hr.1.named _ n hnamed)).2⟩
    | fail hf => exact ⟨.refl hs, .fault hf⟩
  rintro text u hu ⟨hgrown, rfl, hgiven⟩
  have hmoment := hall.between.later hgrown
  cases hv : loads (t.text n) with
  | ok value =>
    exact .pure ⟨.found hmoment hfound hv, _, hgiven, hv⟩
  | error reason =>
    exact .throw (.unreadable hmoment hfound hv)

theorem fulfils_loadSync {key : PyStr} (hgrows : Grows s₀ s) :
    Fulfils (directory U faults) (contract U calls) i (loadSync loads key)
      (fun a t => Linear loads s₀ t (.load key) a ∧ Intact calls loads (.load key) (.ok a))
      (fun _ t => Failed stops loads faults s₀ t (.load key)) s := by
  refine Fulfils.bind (Q := fun found t => Grows s₀ t ∧
    found = (under s₀.base t.journal (getPath key)).isSome) (fulfils_os ?_) ?_
  · intro t r u hr hs st
    have ht := hgrows.trans hr.1
    cases st with
    | stat =>
      have hshown := hs.shown key
      rw [ht.base] at hshown
      refine ⟨.refl hs, ht, ?_⟩
      rw [← hshown, Option.isSome_map]
    | fail hf => exact ⟨.refl hs, .fault hf⟩
  rintro found t - ⟨ht, hfound⟩
  cases found with
  | true =>
    refine Fulfils.bind (Fulfils.tryCatch
      (F := fun _ t => Failed stops loads faults s₀ t (.load key))
      (fulfils_loadText ht.between ht hfound.symm) ?_) ?_
    · exact fun _ _ _ hfailed => .throw hfailed
    · exact fun _ _ _ hread => .pure hread
  | false =>
    have hnone := Option.isSome_eq_false_iff.mp hfound.symm
    exact .pure ⟨.absent ht.between (Option.isNone_iff_eq_none.mp hnone), trivial⟩

theorem fulfils_deleteSync (loads : PyStr → Except PyStr Json) {key : PyStr} (hgrows : Grows s₀ s) :
    Fulfils (directory U faults) (contract U calls) i (deleteSync key)
      (fun a t => Linear loads s₀ t (.delete key) a) (fun _ _ => faults) s := by
  refine Fulfils.bind (Q := fun _ t => Linear loads s₀ t (.delete key) .done) (fulfils_os ?_) ?_
  · intro t r u hr hs st
    have ht := hgrows.trans hr.1
    cases st with
    | unlink =>
      have hkept := kept_remove hs (free_getPath U i t key)
      exact ⟨hkept, .delete (ht.between.later hkept.grows) (ht.trans hkept.grows).between⟩
    | fail hf => exact ⟨.refl hs, hf⟩
  · exact fun _ _ _ hlinear => .pure hlinear

theorem fulfils_existSync (loads : PyStr → Except PyStr Json) {key : PyStr} (hgrows : Grows s₀ s) :
    Fulfils (directory U faults) (contract U calls) i (existSync key)
      (fun a t => Linear loads s₀ t (.exist key) a) (fun _ _ => faults) s := by
  refine Fulfils.bind (Q := fun found t =>
    Linear loads s₀ t (.exist key) (.existing found)) (fulfils_os ?_) ?_
  · intro t r u hr hs st
    have ht := hgrows.trans hr.1
    cases st with
    | stat =>
      have hshown := hs.shown key
      rw [ht.base] at hshown
      have hexist : Linear loads s₀ t (.exist key) _ := .exist ht.between
      rw [← hshown, Option.isSome_map] at hexist
      exact ⟨.refl hs, hexist⟩
    | fail hf => exact ⟨.refl hs, hf⟩
  · exact fun _ _ _ hlinear => .pure hlinear

theorem fulfils_perform (B : Buffer) (op : Operation PyStr Json) (hcall : calls op) :
    Fulfils (directory U faults) (contract U calls) i (perform B stops loads op)
      (fun a t => Linear loads s t op a ∧ Intact calls loads op (.ok a))
      (fun _ t => Failed stops loads faults s t op) s := by
  have hfault : ∀ {t}, faults → Failed stops loads faults s t op := .fault
  cases op with
  | save key value =>
    refine Meets.mono (Q := outcome (fun a t => Linear loads s t (.save key value) a) _)
      (fulfils_saveSync B (Grows.refl s) hcall) ?_
    rintro (e | a) t hr
    · exact hr.elim hfault .refused
    · exact ⟨hr, trivial⟩
  | load key => exact fulfils_loadSync (Grows.refl s)
  | delete key =>
    refine Meets.mono (fulfils_deleteSync loads (Grows.refl s)) ?_
    rintro (e | a) t hr
    · exact hfault hr
    · exact ⟨hr, trivial⟩
  | exist key =>
    refine Meets.mono (fulfils_existSync loads (Grows.refl s)) ?_
    rintro (e | a) t hr
    · exact hfault hr
    · exact ⟨hr, trivial⟩

theorem specified (U : Uuids) (faults : Prop) (calls : Operation PyStr Json → Prop) (B : Buffer)
    (stops : Json → Option (PyStr × PyStr)) (loads : PyStr → Except PyStr Json) :
    Parties.Specified (directory U faults) (contract U calls) Directory.Lost calls
      (fun op => (perform B stops loads op).run) (· = Directory.init)
      (fun op s r t => Came stops loads faults op s r t ∧ Intact calls loads op r) where
  init s hs := hs ▸ sound_init
  lose _ _ hs hl := hl.sound hs
  meets op i s hcall _ := by
    refine Meets.mono (fulfils_perform B op hcall) ?_
    rintro (e | a) t hr
    · refine ⟨hr, ?_⟩
      cases op <;> trivial
    · exact hr
  stable hg h := ⟨h.1.later hg, h.2⟩

end Threads

/-- Whoever else saves, loads or deletes, whichever calls fail and whoever is killed, what a thread
returns is right at one moment of its call, and it raises for a reason. -/
theorem file_storage_linearizable (U : Uuids) (faults : Prop) (B : Buffer)
    (stops : Json → Option (PyStr × PyStr)) (loads : PyStr → Except PyStr Json)
    (calls : Operation PyStr Json → Prop) :
    ∀ p, Transition.Reachable (threads U faults B stops loads calls) p → ∀ f ∈ p.flights, ∀ r,
      f.rest = .pure r → Came stops loads faults f.call f.start r p.world :=
  fun _ hp _ hf _ hr => (Parties.returned (specified U faults calls B stops loads) hp hf hr).1

theorem dot_notMem_tallied : ∀ k, 0x2E ∉ tallied k := notMem_tallied (by decide)

/-- `uuid4` for a witness. -/
def tally : Uuids := ⟨tallied, tallied_injective, dot_notMem_tallied⟩

def unbuffered : Buffer := ⟨fun text => [text], fun text => by simp⟩

theorem load_beside_save : ∃ world : Directory,
    Transition.Reachable (threads tally False unbuffered (fun _ => none)
      (fun _ => .ok .null) fun _ => True) ⟨world, [⟨.save (py "a") .null, .init, .pure (.ok .done)⟩,
        ⟨.load (py "a"), .init, .pure (.ok (.loaded (some .null)))⟩]⟩ ∧
      world.entry (getPath (py "a")) = some 0 := by
  let path := getPath (py "a")
  let temporary := temporaryPath path (tallied 0)
  let text := Json.null.dumps
  let created := (Directory.init.issue 0).made.link temporary 0
  let written := (created.setText 0 text).sync 0
  let saved := (written.remove temporary).link path 0
  have hpath : saved.entry path = some 0 := by simp [saved, link]
  have hissue : Directory.Step tally False 0 .init .uuid4 (.ok (tallied 0))
    (Directory.init.issue 0) := .uuid4
  have hcreate : Directory.Step tally False 0 (Directory.init.issue 0) (.create temporary) (.ok 0)
    created := .create rfl
  have hwrite : Directory.Step tally False 0 created (.write 0 text) (.ok ())
    (created.setText 0 text) := .write
  have hsync : Directory.Step tally False 0 (created.setText 0 text) (.fsync 0) (.ok ()) written :=
    .fsync
  have hreplace : Directory.Step tally False 0 written (.replace temporary path) (.ok ()) saved :=
    .replace (by simp [written, created, sync, setText, link])
  have hstat : Directory.Step tally False 1 saved (.stat path) (.ok true) saved := by
    have h : Directory.Step tally False 1 saved (.stat path) (.ok (saved.entry path).isSome) saved :=
      .stat
    rwa [hpath] at h
  have hopen : Directory.Step tally False 1 saved (.open path) (.ok 0) saved := .open hpath
  have hread : Directory.Step tally False 1 saved (.read 0) (.ok (saved.text 0)) saved := .read
  refine ⟨saved, ?_, hpath⟩
  have h0 : Transition.Reachable (threads tally False unbuffered (fun _ => none)
    (fun _ => .ok .null) fun _ => True) ⟨.init, []⟩ := .init ⟨rfl, rfl⟩
  have h1 := h0.step (e := ()) (.begin (c := .save (py "a") .null) trivial)
  have h2 := h1.step (e := ()) (.begin (c := .load (py "a")) trivial)
  have h3 := h2.step (e := ()) (.advance (i := 0) rfl hissue)
  have h4 := h3.step (e := ()) (.advance (i := 0) rfl hcreate)
  have h5 := h4.step (e := ()) (.advance (i := 0) rfl hwrite)
  have h6 := h5.step (e := ()) (.advance (i := 0) rfl hsync)
  have h7 := h6.step (e := ()) (.advance (i := 0) rfl hreplace)
  have h8 := h7.step (e := ()) (.advance (i := 1) rfl hstat)
  have h9 := h8.step (e := ()) (.advance (i := 1) rfl hopen)
  have h10 := h9.step (e := ()) (.advance (i := 1) rfl hread)
  exact h10

theorem file_storage_linearizable_load : ∃ p,
    Transition.Reachable (threads tally False unbuffered (fun _ => none)
      (fun _ => .ok .null) fun _ => True) p ∧
      Came (fun _ => none) (fun _ => .ok .null) False (.load (py "a")) .init
        (.ok (.loaded (some .null))) p.world := by
  obtain ⟨world, hreach, -⟩ := load_beside_save
  exact ⟨_, hreach, file_storage_linearizable tally False unbuffered _ _ _ _ hreach _
    (List.mem_cons_of_mem _ (List.mem_singleton_self _)) _ rfl⟩

/-- No `load` finds half a file, whatever was interrupted or lost before. -/
theorem file_storage_never_torn (U : Uuids) (faults : Prop) (B : Buffer)
    (stops : Json → Option (PyStr × PyStr)) (loads : PyStr → Except PyStr Json)
    (calls : Operation PyStr Json → Prop) :
    (∀ p, Transition.Reachable (threads U faults B stops loads calls) p → ∀ f ∈ p.flights, ∀ r,
      f.rest = .pure r → Intact calls loads f.call r) ∧
    ∀ p, Transition.Reachable (threads U faults B stops loads calls) p → ∀ key n,
      p.world.entry (getPath key) = some n → Given calls (getPath key) (p.world.text n) := by
  refine ⟨fun _ hp _ hf _ hr =>
    (Parties.returned (specified U faults calls B stops loads) hp hf hr).2, fun p hp key n hn => ?_⟩
  have hs := Parties.inv_reachable (specified U faults calls B stops loads) hp
  exact (hs.whole key n (hs.named _ n hn)).2

theorem file_storage_never_torn_load : ∃ p,
    Transition.Reachable (threads tally False unbuffered (fun _ => none)
      (fun _ => .ok .null) fun _ => True) p ∧
      Intact (fun _ => True) (fun _ => .ok .null) (.load (py "a"))
        (.ok (.loaded (some .null))) ∧
      Given (fun _ => True) (getPath (py "a")) (p.world.text 0) := by
  obtain ⟨world, hreach, hentry⟩ := load_beside_save
  have h := file_storage_never_torn tally False unbuffered (fun _ => none) (fun _ => .ok .null)
    fun _ => True
  exact ⟨_, hreach, h.1 _ hreach _ (List.mem_cons_of_mem _ (List.mem_singleton_self _)) _ rfl,
    h.2 _ hreach _ _ hentry⟩

end PrismPipe.Storages
