/-
# `Lib.Rate` — how often something comes in a run

A run is a list of actions, some of which are the passing of a unit of time
and some what is counted.  `AtMost` bounds the count in every stretch of the
run that is no longer than a window.  A stretch of any length then holds no
more than the bound for each window it can be cut into (`AtMost.countP_le`),
and `bursts` holds as many as that.  `Lately` follows a stretch at the end of a
growing run, whose length stays bounded.
-/
import Mathlib.Algebra.Order.Ring.Nat
import Mathlib.Data.List.Infix
import Mathlib.Tactic.Ring

namespace Rate

variable {α : Type*}

/-- In no stretch over which `tick` comes at most `w` times does `hit` come
more than `b` times. -/
def AtMost (tick hit : α → Bool) (w b : Nat) (as : List α) : Prop :=
  ∀ bs, bs <:+: as → bs.countP tick ≤ w → bs.countP hit ≤ b

variable {tick hit : α → Bool} {w b : Nat}

theorem AtMost.mono {as bs : List α} (h : AtMost tick hit w b as) (hbs : bs <:+: as) :
    AtMost tick hit w b bs :=
  fun cs hcs => h cs (hcs.trans hbs)

/-- The place of the element with `n` others before it. -/
theorem exists_split_of_lt_countP {p : α → Bool} {as : List α} {n : Nat} (h : n < as.countP p) :
    ∃ pre a post, as = pre ++ a :: post ∧ p a = true ∧ pre.countP p = n := by
  induction as generalizing n with
  | nil => exact absurd h (Nat.not_lt_zero n)
  | cons a as ih =>
      by_cases ha : p a = true
      · cases n with
        | zero => exact ⟨[], a, as, rfl, ha, rfl⟩
        | succ n =>
            rw [List.countP_cons_of_pos ha] at h
            obtain ⟨pre, c, post, rfl, hc, hn⟩ := ih (Nat.lt_of_succ_lt_succ h)
            exact ⟨a :: pre, c, post, rfl, hc, by rw [List.countP_cons_of_pos ha, hn]⟩
      · rw [List.countP_cons_of_neg ha] at h
        obtain ⟨pre, c, post, rfl, hc, hn⟩ := ih h
        exact ⟨a :: pre, c, post, rfl, hc, by rw [List.countP_cons_of_neg ha, hn]⟩

/-- By induction on the windows: the first one ends before a tick, and what
follows that tick is a window shorter. -/
theorem AtMost.countP_le_of_lt {as : List α} (hkinds : ∀ a, tick a = true → ¬ hit a = true)
    (h : AtMost tick hit w b as) {n : Nat} (hn : as.countP tick < (n + 1) * (w + 1)) :
    as.countP hit ≤ b * (n + 1) := by
  induction n generalizing as with
  | zero =>
      have hw : as.countP tick ≤ w := by
        rw [Nat.zero_add, Nat.one_mul] at hn
        exact Nat.le_of_lt_succ hn
      rw [Nat.zero_add, Nat.mul_one]
      exact h as (List.infix_refl as) hw
  | succ n ih =>
      by_cases hw : as.countP tick ≤ w
      · exact (h as (List.infix_refl as) hw).trans (Nat.le_mul_of_pos_right b (Nat.succ_pos _))
      · obtain ⟨pre, a, post, rfl, ha, hpre⟩ := exists_split_of_lt_countP (Nat.lt_of_not_le hw)
        have hfirst : pre.countP hit ≤ b :=
          h pre (List.prefix_append pre _).isInfix hpre.le
        have hrest : post.countP hit ≤ b * (n + 1) := by
          refine ih (h.mono ⟨pre ++ [a], [], by simp⟩) ?_
          rw [List.countP_append, List.countP_cons_of_pos ha, hpre, Nat.succ_mul] at hn
          omega
        calc (pre ++ a :: post).countP hit
            = pre.countP hit + post.countP hit := by
              rw [List.countP_append, List.countP_cons_of_neg (hkinds a ha)]
          _ ≤ b + b * (n + 1) := Nat.add_le_add hfirst hrest
          _ = b * (n + 1 + 1) := by ring

/-- **A stretch holds at most `b` for each window it can be cut into.** -/
theorem AtMost.countP_le {as : List α} (hkinds : ∀ a, tick a = true → ¬ hit a = true)
    (h : AtMost tick hit w b as) : as.countP hit ≤ b * (as.countP tick / (w + 1) + 1) := by
  refine h.countP_le_of_lt hkinds ?_
  rw [Nat.mul_comm]
  exact Nat.lt_mul_div_succ _ (Nat.succ_pos w)

/-! ## The last of a run -/

/-- The run ends in a stretch of which `Q` holds and which, with the `left`
ticks that are still to come, is no longer than `bound`. -/
def Lately (tick : α → Bool) (bound : Nat) (as : List α) (left : Nat)
    (Q : List α → List α → Prop) : Prop :=
  ∃ old recent, as = old ++ recent ∧ Q old recent ∧ recent.countP tick + left ≤ bound

theorem lately_renew {bound left : Nat} {as : List α} {Q : List α → List α → Prop} (h : Q as [])
    (hleft : left ≤ bound) : Lately tick bound as left Q :=
  ⟨as, [], (List.append_nil as).symm, h, by rwa [List.countP_nil, Nat.zero_add]⟩

/-- One more action, which ticks no more often than there is less left. -/
theorem Lately.concat {bound left left' : Nat} {as : List α} {a : α}
    {Q Q' : List α → List α → Prop} (h : Lately tick bound as left Q)
    (hleft : [a].countP tick + left' ≤ left)
    (hQ : ∀ old recent, as = old ++ recent → Q old recent → Q' old (recent ++ [a])) :
    Lately tick bound (as ++ [a]) left' Q' := by
  obtain ⟨old, recent, has, hstretch, hbound⟩ := h
  refine ⟨old, recent ++ [a], ?_, hQ old recent has hstretch, ?_⟩
  · rw [has, List.append_assoc]
  · rw [List.countP_append, Nat.add_assoc]
    exact (Nat.add_le_add_left hleft _).trans hbound

theorem Lately.imp {bound left : Nat} {as : List α} {Q Q' : List α → List α → Prop}
    (h : Lately tick bound as left Q)
    (hQ : ∀ old recent, as = old ++ recent → Q old recent → Q' old recent) :
    Lately tick bound as left Q' := by
  obtain ⟨old, recent, has, hstretch, hbound⟩ := h
  exact ⟨old, recent, has, hQ old recent has hstretch, hbound⟩

/-- A stretch that has been followed so far may grow by `more`. -/
theorem Lately.later {bound left more left' : Nat} {as : List α} {Q : List α → List α → Prop}
    (h : Lately tick bound as left Q) (hleft : left' ≤ more) :
    Lately tick (bound + more) as left' Q := by
  obtain ⟨old, recent, has, hstretch, hbound⟩ := h
  exact ⟨old, recent, has, hstretch,
    Nat.add_le_add ((Nat.le_add_right _ left).trans hbound) hleft⟩

/-- What is longer ago than the bound was before the stretch. -/
theorem Lately.prefix_old {bound left : Nat} {as : List α} {Q : List α → List α → Prop}
    (h : Lately tick bound as left Q) :
    ∃ old recent, as = old ++ recent ∧ Q old recent ∧
      ∀ old' recent', as = old' ++ recent' → bound < recent'.countP tick → old' <+: old := by
  obtain ⟨old, recent, has, hstretch, hbound⟩ := h
  refine ⟨old, recent, has, hstretch, fun old' recent' has' hlong => ?_⟩
  rcases List.prefix_or_prefix_of_prefix (has' ▸ List.prefix_append old' recent')
      (has ▸ List.prefix_append old recent) with hbefore | ⟨more, rfl⟩
  · exact hbefore
  · -- `recent'` would be the end of a stretch shorter than itself
    rw [has', List.append_assoc] at has
    have hrecent : more ++ recent' = recent := List.append_cancel_left has
    rw [← hrecent, List.countP_append] at hbound
    omega

/-- At a bounded rate, the last of a run holds no more than the bound for each
window of it. -/
theorem Lately.countP_le {bound left : Nat} {as : List α} {Q : List α → List α → Prop}
    (h : Lately tick bound as left Q) (hkinds : ∀ a, tick a = true → ¬ hit a = true)
    (hrate : AtMost tick hit w b as) :
    ∃ old recent, as = old ++ recent ∧ Q old recent ∧
      recent.countP hit ≤ b * (bound / (w + 1) + 1) := by
  obtain ⟨old, recent, rfl, hstretch, hbound⟩ := h
  refine ⟨old, recent, rfl, hstretch, ?_⟩
  have hticks : recent.countP tick ≤ bound := (Nat.le_add_right _ left).trans hbound
  calc recent.countP hit
      ≤ b * (recent.countP tick / (w + 1) + 1) :=
        (hrate.mono (List.suffix_append old recent).isInfix).countP_le hkinds
    _ ≤ b * (bound / (w + 1) + 1) :=
        Nat.mul_le_mul_left b (Nat.succ_le_succ (Nat.div_le_div_right hticks))

/-! ## Bursts -/

/-- `b` hits at a time, `w + 1` ticks apart. -/
def bursts (t h : α) (w b : Nat) : Nat → List α
  | 0 => List.replicate b h
  | n + 1 => List.replicate b h ++ (List.replicate (w + 1) t ++ bursts t h w b n)

/-- A start without hits changes nothing. -/
theorem AtMost.append_left {pre as : List α} (h : AtMost tick hit w b as)
    (hpre : pre.countP hit = 0) : AtMost tick hit w b (pre ++ as) := by
  have hnone : ∀ cs, cs <:+: pre → cs.countP hit = 0 := fun cs hcs =>
    Nat.le_zero.mp (hpre ▸ hcs.sublist.countP_le)
  intro bs hbs hticks
  rcases List.infix_append_iff.mp hbs with hin | hin | ⟨cs, ds, rfl, hcs, hds⟩
  · rw [hnone bs hin]
    exact Nat.zero_le b
  · exact h bs hin hticks
  · rw [List.countP_append] at hticks ⊢
    rw [hnone cs hcs.isInfix, Nat.zero_add]
    exact h ds hds.isInfix ((Nat.le_add_left _ _).trans hticks)

variable {t h : α}

theorem countP_replicate_tick (hhit : ¬ hit t = true) (n : Nat) :
    (List.replicate n t).countP hit = 0 :=
  List.countP_eq_zero.mpr fun _ ha => List.eq_of_mem_replicate ha ▸ hhit

/-- A stretch that begins in the burst and goes beyond the pause is too long. -/
theorem AtMost.burst {as : List α} (htick : tick t = true) (hhit : ¬ hit t = true)
    (has : AtMost tick hit w b as) :
    AtMost tick hit w b (List.replicate b h ++ (List.replicate (w + 1) t ++ as)) := by
  have hpause := has.append_left (countP_replicate_tick hhit (w + 1))
  have hburst : ∀ cs : List α, cs.Sublist (List.replicate b h) → cs.countP hit ≤ b :=
    fun cs hcs => List.countP_le_length.trans (hcs.length_le.trans_eq List.length_replicate)
  intro bs hbs hticks
  rcases List.infix_append_iff.mp hbs with hin | hin | ⟨cs, ds, rfl, hcs, hds⟩
  · exact hburst bs hin.sublist
  · exact hpause bs hin hticks
  · rw [List.countP_append] at hticks ⊢
    rcases List.prefix_or_prefix_of_prefix hds (List.prefix_append (List.replicate (w + 1) t) as)
      with hshort | hlong
    · have hnone : ds.countP hit = 0 :=
        Nat.le_zero.mp (countP_replicate_tick hhit (w + 1) ▸ hshort.sublist.countP_le)
      rw [hnone, Nat.add_zero]
      exact hburst cs hcs.sublist
    · have hwhole : w + 1 ≤ ds.countP tick := by
        have hle := hlong.sublist.countP_le (p := tick)
        rwa [List.countP_replicate, if_pos htick] at hle
      omega

theorem atMost_bursts (htick : tick t = true) (hhit : ¬ hit t = true) (n : Nat) :
    AtMost tick hit w b (bursts t h w b n) := by
  induction n with
  | zero =>
      intro bs hbs _
      exact List.countP_le_length.trans (hbs.length_le.trans_eq List.length_replicate)
  | succ n ih => exact ih.burst htick hhit

theorem countP_bursts (htick : ¬ hit t = true) (hhit : hit h = true) (n : Nat) :
    (bursts t h w b n).countP hit = b * (n + 1) := by
  induction n with
  | zero => rw [bursts, List.countP_replicate, if_pos hhit, Nat.zero_add, Nat.mul_one]
  | succ n ih =>
      rw [bursts, List.countP_append, List.countP_append, ih, countP_replicate_tick htick,
        List.countP_replicate, if_pos hhit]
      ring

theorem countP_tick_bursts (htick : tick t = true) (hhit : ¬ tick h = true) (n : Nat) :
    (bursts t h w b n).countP tick = n * (w + 1) := by
  induction n with
  | zero => rw [bursts, List.countP_replicate, if_neg hhit, Nat.zero_mul]
  | succ n ih =>
      rw [bursts, List.countP_append, List.countP_append, ih, List.countP_replicate, if_neg hhit,
        List.countP_replicate, if_pos htick]
      ring

theorem eq_or_eq_of_mem_bursts {n : Nat} {a : α} (ha : a ∈ bursts t h w b n) : a = h ∨ a = t := by
  induction n with
  | zero => exact .inl (List.eq_of_mem_replicate ha)
  | succ n ih =>
      rcases List.mem_append.mp ha with ha | ha
      · exact .inl (List.eq_of_mem_replicate ha)
      · rcases List.mem_append.mp ha with ha | ha
        · exact .inr (List.eq_of_mem_replicate ha)
        · exact ih ha

end Rate
