/-
# `Lib.Stages` — a stage and a sink, connected by queues

A *stage* takes items from its inbox one at a time and keeps a state; for each
item it puts out any number of items.  A *sink* takes those and folds them
into what it has.  The two and whoever fills the inbox run at their own speed:
the queues between them hold what has been put out and not yet taken.

`Flow` is the invariant that any interleaving of the three keeps: the items
put so far are those the stage has handled and then those in the inbox, and
what the stage put out for them is what the sink has taken and then what is
between the two.  `Flow.drained` reads off it that with both queues empty the
schedule has left no trace.

`LossyFlow` is what is left of it where the queues may turn items away: all
that is lost is items, and none is ever made up, doubled or overtaken.
-/
import Mathlib.Logic.Basic
import Mathlib.Tactic.Common

namespace Stages

variable {α β σ τ : Type*}

/-- A stage applied to a list of items: the state it is left in and what it
has put out. -/
def feed (stage : σ → α → σ × List β) : σ → List α → σ × List β
  | s, [] => (s, [])
  | s, a :: as =>
      let rest := feed stage (stage s a).1 as
      (rest.1, (stage s a).2 ++ rest.2)

theorem feed_append (stage : σ → α → σ × List β) (s : σ) (as bs : List α) :
    feed stage s (as ++ bs) =
      ((feed stage (feed stage s as).1 bs).1,
        (feed stage s as).2 ++ (feed stage (feed stage s as).1 bs).2) := by
  induction as generalizing s with
  | nil => rfl
  | cons a as ih => simp only [List.cons_append, feed, ih, List.append_assoc]

theorem feed_concat (stage : σ → α → σ × List β) (s : σ) (as : List α) (a : α) :
    feed stage s (as ++ [a]) =
      ((stage (feed stage s as).1 a).1, (feed stage s as).2 ++ (stage (feed stage s as).1 a).2) := by
  rw [feed_append]
  show (_, _ ++ ((stage (feed stage s as).1 a).2 ++ [])) = _
  rw [List.append_nil]
  rfl

/-- The two queues, the state of the stage and what the sink has. -/
structure Line (α β σ τ : Type*) where
  inbox : List α
  state : σ
  between : List β
  sunk : τ

namespace Line

def put (l : Line α β σ τ) (a : α) : Line α β σ τ := { l with inbox := l.inbox ++ [a] }

/-- The stage takes an item, if there is one. -/
def advance (stage : σ → α → σ × List β) (l : Line α β σ τ) : Line α β σ τ :=
  match l.inbox with
  | [] => l
  | a :: rest =>
      { l with
        inbox := rest
        state := (stage l.state a).1
        between := l.between ++ (stage l.state a).2 }

/-- The sink takes an item, if there is one. -/
def drain (sink : τ → β → τ) (l : Line α β σ τ) : Line α β σ τ :=
  match l.between with
  | [] => l
  | b :: rest => { l with between := rest, sunk := sink l.sunk b }

theorem advance_inbox (stage : σ → α → σ × List β) (l : Line α β σ τ) :
    (l.advance stage).inbox = l.inbox.tail := by
  obtain ⟨_ | ⟨a, rest⟩, s, between, t⟩ := l <;> rfl

theorem drain_inbox (sink : τ → β → τ) (l : Line α β σ τ) : (l.drain sink).inbox = l.inbox := by
  obtain ⟨inbox, s, _ | ⟨b, rest⟩, t⟩ := l <;> rfl

theorem drain_of_empty {sink : τ → β → τ} {l : Line α β σ τ} (h : l.between = []) :
    l.drain sink = l := by
  rw [drain, h]

end Line

section Flow

variable {stage : σ → α → σ × List β} {sink : τ → β → τ} {s₀ : σ} {t₀ : τ}

/-- The line has come from `s₀` and `t₀` with the items of `input` put. -/
def Flow (stage : σ → α → σ × List β) (sink : τ → β → τ) (s₀ : σ) (t₀ : τ) (input : List α)
    (l : Line α β σ τ) : Prop :=
  ∃ handled taken, input = handled ++ l.inbox ∧
    feed stage s₀ handled = (l.state, taken ++ l.between) ∧ taken.foldl sink t₀ = l.sunk

theorem flow_start : Flow stage sink s₀ t₀ [] ⟨[], s₀, [], t₀⟩ := ⟨[], [], rfl, rfl, rfl⟩

theorem Flow.put {input : List α} {l : Line α β σ τ} (h : Flow stage sink s₀ t₀ input l)
    (a : α) : Flow stage sink s₀ t₀ (input ++ [a]) (l.put a) := by
  obtain ⟨handled, taken, rfl, hfeed, hsunk⟩ := h
  exact ⟨handled, taken, List.append_assoc handled l.inbox [a], hfeed, hsunk⟩

theorem Flow.advance {input : List α} {l : Line α β σ τ} (h : Flow stage sink s₀ t₀ input l) :
    Flow stage sink s₀ t₀ input (l.advance stage) := by
  obtain ⟨handled, taken, hinput, hfeed, hsunk⟩ := h
  obtain ⟨inbox, s, between, t⟩ := l
  cases inbox with
  | nil => exact ⟨handled, taken, hinput, hfeed, hsunk⟩
  | cons a rest =>
      refine ⟨handled ++ [a], taken, ?_, ?_, hsunk⟩
      · rw [hinput, List.append_assoc]
        rfl
      · rw [feed_append, hfeed]
        show ((stage s a).1, (taken ++ between) ++ ((stage s a).2 ++ [])) = _
        rw [List.append_nil, List.append_assoc]
        rfl

theorem Flow.drain {input : List α} {l : Line α β σ τ} (h : Flow stage sink s₀ t₀ input l) :
    Flow stage sink s₀ t₀ input (l.drain sink) := by
  obtain ⟨handled, taken, hinput, hfeed, hsunk⟩ := h
  obtain ⟨inbox, s, between, t⟩ := l
  cases between with
  | nil => exact ⟨handled, taken, hinput, hfeed, hsunk⟩
  | cons b rest =>
      refine ⟨handled, taken ++ [b], hinput, ?_, ?_⟩
      · rw [hfeed, List.append_assoc]
        rfl
      · rw [List.foldl_append, hsunk]
        rfl

/-- With both queues empty, the stage and the sink are where handling the
whole input in one go takes them. -/
theorem Flow.drained {input : List α} {l : Line α β σ τ} (h : Flow stage sink s₀ t₀ input l)
    (hinbox : l.inbox = []) (hbetween : l.between = []) :
    l.state = (feed stage s₀ input).1 ∧ l.sunk = (feed stage s₀ input).2.foldl sink t₀ := by
  obtain ⟨handled, taken, hinput, hfeed, hsunk⟩ := h
  rw [hinbox, List.append_nil] at hinput
  rw [hbetween, List.append_nil] at hfeed
  subst hinput
  rw [hfeed]
  exact ⟨rfl, hsunk.symm⟩

/-! ## With losses -/

/-- The stage has handled some of the items put, and the sink has taken some
of what it put out for them. -/
def LossyFlow (stage : σ → α → σ × List β) (sink : τ → β → τ) (s₀ : σ) (t₀ : τ) (input : List α)
    (l : Line α β σ τ) : Prop :=
  ∃ handled taken, (handled ++ l.inbox).Sublist input ∧
    (feed stage s₀ handled).1 = l.state ∧
    (taken ++ l.between).Sublist (feed stage s₀ handled).2 ∧ taken.foldl sink t₀ = l.sunk

theorem lossyFlow_start : LossyFlow stage sink s₀ t₀ [] ⟨[], s₀, [], t₀⟩ :=
  ⟨[], [], List.Sublist.refl [], rfl, List.Sublist.refl [], rfl⟩

theorem LossyFlow.put {input : List α} {l : Line α β σ τ}
    (h : LossyFlow stage sink s₀ t₀ input l) (a : α) :
    LossyFlow stage sink s₀ t₀ (input ++ [a]) (l.put a) := by
  obtain ⟨handled, taken, hinput, hstate, hbetween, hsunk⟩ := h
  refine ⟨handled, taken, ?_, hstate, hbetween, hsunk⟩
  show (handled ++ (l.inbox ++ [a])).Sublist (input ++ [a])
  rw [← List.append_assoc]
  exact hinput.append (List.Sublist.refl [a])

/-- An item is turned away. -/
theorem LossyFlow.lose {input : List α} {l : Line α β σ τ}
    (h : LossyFlow stage sink s₀ t₀ input l) (a : α) :
    LossyFlow stage sink s₀ t₀ (input ++ [a]) l := by
  obtain ⟨handled, taken, hinput, hrest⟩ := h
  exact ⟨handled, taken, hinput.trans (List.sublist_append_left input [a]), hrest⟩

/-- The stage takes an item, and some of what it puts out is turned away. -/
theorem LossyFlow.advance {input : List α} {l : Line α β σ τ}
    (h : LossyFlow stage sink s₀ t₀ input l) {a : α} {rest : List α} (hinbox : l.inbox = a :: rest)
    {out : List β} (hout : out.Sublist (stage l.state a).2) :
    LossyFlow stage sink s₀ t₀ input
      { l with inbox := rest, state := (stage l.state a).1, between := l.between ++ out } := by
  obtain ⟨handled, taken, hinput, hstate, hbetween, hsunk⟩ := h
  refine ⟨handled ++ [a], taken, ?_, ?_, ?_, hsunk⟩
  · rw [hinbox] at hinput
    show ((handled ++ [a]) ++ rest).Sublist input
    rw [List.append_assoc]
    exact hinput
  · rw [feed_concat, hstate]
  · rw [feed_concat, hstate]
    show (taken ++ (l.between ++ out)).Sublist _
    rw [← List.append_assoc]
    exact hbetween.append hout

theorem LossyFlow.drain {input : List α} {l : Line α β σ τ}
    (h : LossyFlow stage sink s₀ t₀ input l) : LossyFlow stage sink s₀ t₀ input (l.drain sink) := by
  obtain ⟨handled, taken, hinput, hstate, hbetween, hsunk⟩ := h
  obtain ⟨inbox, s, between, t⟩ := l
  cases between with
  | nil => exact ⟨handled, taken, hinput, hstate, hbetween, hsunk⟩
  | cons b rest =>
      refine ⟨handled, taken ++ [b], hinput, hstate, ?_, ?_⟩
      · show ((taken ++ [b]) ++ rest).Sublist _
        rw [List.append_assoc]
        exact hbetween
      · rw [List.foldl_append, hsunk]
        rfl

/-! ## What is through -/

theorem feed_prefix (stage : σ → α → σ × List β) (s : σ) {as bs : List α} (h : as <+: bs) :
    (feed stage s as).2 <+: (feed stage s bs).2 := by
  obtain ⟨cs, rfl⟩ := h
  rw [feed_append]
  exact List.prefix_append _ _

/-- A flow in which the sink has taken all that came of `through`. -/
def FlowPast (stage : σ → α → σ × List β) (sink : τ → β → τ) (s₀ : σ) (t₀ : τ)
    (input through : List α) (l : Line α β σ τ) : Prop :=
  ∃ handled taken, (input = handled ++ l.inbox ∧
      feed stage s₀ handled = (l.state, taken ++ l.between) ∧ taken.foldl sink t₀ = l.sunk) ∧
    through <+: handled ∧ (feed stage s₀ through).2 <+: taken

theorem flowPast_start : FlowPast stage sink s₀ t₀ [] [] ⟨[], s₀, [], t₀⟩ :=
  ⟨[], [], ⟨rfl, rfl, rfl⟩, List.prefix_refl [], List.prefix_refl []⟩

theorem FlowPast.put {input through : List α} {l : Line α β σ τ}
    (h : FlowPast stage sink s₀ t₀ input through l) (a : α) :
    FlowPast stage sink s₀ t₀ (input ++ [a]) through (l.put a) := by
  obtain ⟨handled, taken, ⟨rfl, hfeed, hsunk⟩, hpast⟩ := h
  exact ⟨handled, taken, ⟨List.append_assoc handled l.inbox [a], hfeed, hsunk⟩, hpast⟩

theorem FlowPast.advance {input through : List α} {l : Line α β σ τ}
    (h : FlowPast stage sink s₀ t₀ input through l) :
    FlowPast stage sink s₀ t₀ input through (l.advance stage) := by
  obtain ⟨handled, taken, ⟨rfl, hfeed, hsunk⟩, hthrough, htaken⟩ := h
  obtain ⟨inbox, s, between, t⟩ := l
  cases inbox with
  | nil => exact ⟨handled, taken, ⟨rfl, hfeed, hsunk⟩, hthrough, htaken⟩
  | cons a rest =>
      refine ⟨handled ++ [a], taken, ⟨(List.append_cons handled a rest), ?_, hsunk⟩,
        hthrough.trans (List.prefix_append handled [a]), htaken⟩
      rw [feed_concat, hfeed, List.append_assoc]
      rfl

theorem FlowPast.drain {input through : List α} {l : Line α β σ τ}
    (h : FlowPast stage sink s₀ t₀ input through l) :
    FlowPast stage sink s₀ t₀ input through (l.drain sink) := by
  obtain ⟨handled, taken, ⟨hinput, hfeed, hsunk⟩, hthrough, htaken⟩ := h
  obtain ⟨inbox, s, between, t⟩ := l
  cases between with
  | nil => exact ⟨handled, taken, ⟨hinput, hfeed, hsunk⟩, hthrough, htaken⟩
  | cons b rest =>
      refine ⟨handled, taken ++ [b], ⟨hinput, ?_, ?_⟩, hthrough,
        htaken.trans (List.prefix_append taken [b])⟩
      · rw [hfeed, List.append_cons]
        rfl
      · rw [List.foldl_append, hsunk]
        rfl

/-- With nothing between the stages, what the stage has handled is through. -/
theorem FlowPast.renew {input through old recent : List α} {l : Line α β σ τ}
    (h : FlowPast stage sink s₀ t₀ input through l) (hbetween : l.between = [])
    (hinput : input = old ++ recent) (hinbox : l.inbox.length ≤ recent.length) :
    FlowPast stage sink s₀ t₀ input old l := by
  obtain ⟨handled, taken, ⟨hhandled, hfeed, hsunk⟩, -⟩ := h
  have hold : old <+: handled := by
    refine List.prefix_of_prefix_length_le (hinput ▸ List.prefix_append old recent)
      (hhandled ▸ List.prefix_append handled l.inbox) ?_
    have hlength : old.length + recent.length = handled.length + l.inbox.length := by
      rw [← List.length_append, ← List.length_append, ← hinput, hhandled]
    omega
  refine ⟨handled, taken, ⟨hhandled, hfeed, hsunk⟩, hold, ?_⟩
  have htaken : (feed stage s₀ handled).2 = taken := by rw [hfeed, hbetween, List.append_nil]
  exact htaken ▸ feed_prefix stage s₀ hold

/-- Of a stage that puts out at most one item for each, no more waits than has
been put in since. -/
theorem FlowPast.length_le {old recent : List α} {l : Line α β σ τ}
    (hone : ∀ s a, (stage s a).2.length ≤ 1)
    (h : FlowPast stage sink s₀ t₀ (old ++ recent) old l) :
    l.inbox.length + l.between.length ≤ recent.length := by
  have hfeed_le : ∀ (s : σ) (as : List α), (feed stage s as).2.length ≤ as.length := by
    intro s as
    induction as generalizing s with
    | nil => exact Nat.le_refl 0
    | cons a as ih =>
        have hfirst := hone s a
        have hrest := ih (stage s a).1
        rw [feed, List.length_append, List.length_cons]
        omega
  obtain ⟨handled, taken, ⟨hhandled, hfeed, hsunk⟩, ⟨more, rfl⟩, ⟨since, rfl⟩⟩ := h
  rw [List.append_assoc] at hhandled
  rw [feed_append, Prod.mk.injEq, List.append_assoc] at hfeed
  have hmore := hfeed_le (feed stage s₀ old).1 more
  have hrecent : recent.length = more.length + l.inbox.length := by
    rw [List.append_cancel_left hhandled, List.length_append]
  have hbetween : l.between.length ≤ more.length := by
    rw [List.append_cancel_left hfeed.2, List.length_append] at hmore
    omega
  omega

end Flow

end Stages
