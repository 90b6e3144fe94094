/-
# `Redis.Publish` — the batches of `RedisSubscriber::publish`

The loop appends the key, the timestamp and the price of one object after
another to `result`, a vector that starts with `"TS.MADD"` and is handed to
Redis whole once `count` has reached the batch size.  The three appends stand
in one `try` block and each converts its field first, so a conversion that
throws leaves behind what the appends before it have added; the handler only
logs.

`publish_aligned_iff` says for which sequences of objects this never happens:
those in which no object has a string `"s"` and a `"p"` that is not a string.
`datapoints_kept` is about sequences of whole datapoints: whichever commands
fail, what the successful ones carried and what is still in the batch are the
datapoints popped, in order.  `alwaysBatched_iff` says when the commands are of
the size that `REDIS_BATCH_SIZE` gives.
-/
import Mathlib.Data.List.Forall2
import SravzBackend.Lib.Runs
import SravzBackend.Redis.Parse

namespace SravzBackend.Redis

/-! ## The loop -/

/-- `REDIS_BATCH_SIZE`. -/
def redisBatchSize : Int := 10

/-- The locals of `RedisSubscriber::publish`, and the commands given to Redis
so far, each with whether it succeeded. -/
structure Publisher where
  result : List Str
  count : Int
  commands : List (List Str × Bool)

def Publisher.start : Publisher := ⟨["TS.MADD".toList], 0, []⟩

def Publisher.append (st : Publisher) (arg : Str) : Publisher :=
  { st with result := st.result ++ [arg] }

/-- What follows the three appends: a full batch is sent, anything less is
counted.  A command that fails throws, which skips the two resets. -/
def Publisher.flush (ok : Bool) (st : Publisher) : Publisher :=
  if st.count ≥ redisBatchSize then
    let st := { st with commands := st.commands ++ [(st.result, ok)] }
    if ok then { st with count := 0, result := st.result.take 1 } else st
  else
    { st with count := st.count + 1 }

def stringField (obj : Object) (key : Str) : Except JsonError Str :=
  objectAt obj key >>= Json.toStr

def longField (obj : Object) (key : Str) : Except JsonError Int :=
  objectAt obj key >>= Json.toLong

/-- The `try` block of one iteration and its handler; `ok` is what the command
comes to, if one is given. -/
def Publisher.tryPublish (ok : Bool) (st : Publisher) (obj : Object) : Publisher :=
  match stringField obj "s".toList with
  | .error _ => st
  | .ok s =>
      let st := st.append s
      match longField obj "t".toList with
      | .error _ => st
      | .ok t =>
          let st := st.append (lexicalCast t)
          match stringField obj "p".toList with
          | .error _ => st
          | .ok p => (st.append p).flush ok

/-- One iteration of `RedisSubscriber::publish`.  The log statement stands
outside the `try` block: where it throws, the loop is left. -/
def publishIteration (info : Bool) (st : Publisher) (x : Object × Bool) : Option Publisher :=
  match logDatapoint info x.1 with
  | .error _ => none
  | .ok () => some (st.tryPublish x.2 x.1)

/-! ## What one object contributes -/

/-- The key, the timestamp and the price of an object, as arguments. -/
def triple (obj : Object) : Except JsonError (List Str) := do
  let s ← stringField obj "s".toList
  let t ← longField obj "t".toList
  let p ← stringField obj "p".toList
  return [s, lexicalCast t, p]

def Convertible (obj : Object) : Prop := ∃ args, triple obj = .ok args

def tripleOf (obj : Object) : List Str :=
  match triple obj with
  | .ok args => args
  | .error _ => []

/-- The object has `"s"`, `"p"` and an integer `"t"`, as those that
`RedisSubscriber::parse` pushes have. -/
structure HasFields (obj : Object) : Prop where
  s : ∃ v, objectAt obj "s".toList = .ok v
  p : ∃ v, objectAt obj "p".toList = .ok v
  t : ∃ n, longField obj "t".toList = .ok n

/-- The object's string `"s"`, if it has one, goes with a string `"p"`. -/
def PriceIsText (obj : Object) : Prop :=
  (∃ s, stringField obj "s".toList = .ok s) → ∃ p, stringField obj "p".toList = .ok p

theorem logDatapoint_of_hasFields {info : Bool} {obj : Object} (h : HasFields obj) :
    logDatapoint info obj = .ok () := by
  obtain ⟨⟨s, hs⟩, ⟨p, hp⟩, n, hn⟩ := h
  obtain ⟨t, ht, _⟩ := bind_eq_ok.mp hn
  unfold logDatapoint
  cases info with
  | false => rfl
  | true =>
      simp only [if_true, hs, hp, ht]
      rfl

theorem triple_eq_ok {obj : Object} {s p : Str} {t : Int}
    (hs : stringField obj "s".toList = .ok s) (ht : longField obj "t".toList = .ok t)
    (hp : stringField obj "p".toList = .ok p) : triple obj = .ok [s, lexicalCast t, p] := by
  simp only [triple, hs, ht, hp]
  rfl

/-- What an object with its fields does to the batch: its whole triple and the
test of the batch size, or nothing, or, where the price is not a string, the
first two arguments alone. -/
theorem tryPublish_cases {obj : Object} (h : HasFields obj) (ok : Bool) (st : Publisher) :
    (∃ args, triple obj = .ok args ∧
        st.tryPublish ok obj = ({ st with result := st.result ++ args } : Publisher).flush ok) ∨
      (¬ Convertible obj ∧ PriceIsText obj ∧ st.tryPublish ok obj = st) ∨
      (¬ Convertible obj ∧ ¬ PriceIsText obj ∧ ∃ s t,
        st.tryPublish ok obj = { st with result := st.result ++ [s, t] }) := by
  obtain ⟨t, ht⟩ := h.t
  cases hs : stringField obj "s".toList with
  | error e =>
      refine Or.inr (Or.inl ⟨?_, ?_, ?_⟩)
      · rintro ⟨args, hargs⟩
        simp only [triple, hs] at hargs
        cases hargs
      · rintro ⟨s, hs'⟩
        rw [hs] at hs'
        cases hs'
      · simp only [Publisher.tryPublish, hs]
  | ok s =>
      cases hp : stringField obj "p".toList with
      | ok p =>
          refine Or.inl ⟨[s, lexicalCast t, p], triple_eq_ok hs ht hp, ?_⟩
          simp only [Publisher.tryPublish, hs, ht, hp, Publisher.append, List.append_assoc,
            List.cons_append, List.nil_append]
      | error e =>
          refine Or.inr (Or.inr ⟨?_, ?_, s, lexicalCast t, ?_⟩)
          · rintro ⟨args, hargs⟩
            simp only [triple, hs, ht, hp] at hargs
            cases hargs
          · intro htext
            obtain ⟨p, hp'⟩ := htext ⟨s, hs⟩
            rw [hp] at hp'
            cases hp'
          · simp only [Publisher.tryPublish, hs, ht, hp, Publisher.append, List.append_assoc,
              List.cons_append, List.nil_append]

/-! ## Alignment -/

/-- `args` is `"TS.MADD"` and the triples of some of the objects, in order. -/
def WholeTriples (objs : List Object) (args : List Str) : Prop :=
  ∃ os : List Object, os.Sublist objs ∧ (∀ o ∈ os, Convertible o) ∧
    args = "TS.MADD".toList :: os.flatMap tripleOf

structure Aligned (objs : List Object) (st : Publisher) : Prop where
  result : WholeTriples objs st.result
  commands : ∀ c ∈ st.commands, WholeTriples objs c.1

/-- After every iteration the batch and the commands sent are whole triples of
objects popped so far, and an object that cannot be converted has changed
nothing. -/
def AlwaysAligned (info : Bool) (xs : List (Object × Bool)) : Prop :=
  (∀ pre post st, xs = pre ++ post →
      Runs.run (publishIteration info) .start pre = some st → Aligned (pre.map Prod.fst) st) ∧
    ∀ pre x post st, xs = pre ++ x :: post →
      Runs.run (publishIteration info) .start pre = some st → ¬ Convertible x.1 →
      publishIteration info st x = some st

theorem wholeTriples_header (objs : List Object) : WholeTriples objs ["TS.MADD".toList] :=
  ⟨[], List.nil_sublist objs, fun _ ho => absurd ho List.not_mem_nil, rfl⟩

theorem WholeTriples.mono {objs : List Object} {args : List Str} (h : WholeTriples objs args)
    (obj : Object) : WholeTriples (objs ++ [obj]) args := by
  obtain ⟨os, hsub, hconv, hargs⟩ := h
  exact ⟨os, hsub.trans (List.sublist_append_left objs [obj]), hconv, hargs⟩

theorem WholeTriples.extend {objs : List Object} {args : List Str} (h : WholeTriples objs args)
    {obj : Object} {t : List Str} (ht : triple obj = .ok t) :
    WholeTriples (objs ++ [obj]) (args ++ t) := by
  obtain ⟨os, hsub, hconv, hargs⟩ := h
  refine ⟨os ++ [obj], hsub.append_right [obj], ?_, ?_⟩
  · intro o ho
    rcases List.mem_append.mp ho with ho | ho
    · exact hconv o ho
    · rw [List.mem_singleton.mp ho]
      exact ⟨t, ht⟩
  · have htriple : tripleOf obj = t := by simp only [tripleOf, ht]
    rw [hargs, List.flatMap_append, List.flatMap_singleton, htriple, List.cons_append]

theorem Aligned.mono {objs : List Object} {st : Publisher} (h : Aligned objs st)
    (obj : Object) : Aligned (objs ++ [obj]) st :=
  ⟨h.result.mono obj, fun c hc => (h.commands c hc).mono obj⟩

theorem WholeTriples.take_one {objs : List Object} {args : List Str}
    (h : WholeTriples objs args) : args.take 1 = ["TS.MADD".toList] := by
  obtain ⟨os, _, _, rfl⟩ := h
  rfl

theorem Aligned.flush {objs : List Object} {st : Publisher} (h : Aligned objs st) (ok : Bool) :
    Aligned objs (st.flush ok) := by
  have hcommands : ∀ c ∈ st.commands ++ [(st.result, ok)], WholeTriples objs c.1 := by
    intro c hc
    rcases List.mem_append.mp hc with hc | hc
    · exact h.commands c hc
    · rw [List.mem_singleton.mp hc]
      exact h.result
  unfold Publisher.flush
  split
  · cases ok with
    | false => exact ⟨h.result, hcommands⟩
    | true =>
        refine ⟨?_, hcommands⟩
        show WholeTriples objs (st.result.take 1)
        rw [h.result.take_one]
        exact wholeTriples_header objs
  · exact ⟨h.result, h.commands⟩

theorem aligned_start : Aligned [] Publisher.start :=
  ⟨wholeTriples_header [], fun _ hc => absurd hc List.not_mem_nil⟩

/-- One iteration on an object whose price is text keeps the alignment. -/
theorem Aligned.iteration {objs : List Object} {st st' : Publisher} {info : Bool}
    {x : Object × Bool} (h : Aligned objs st) (hx : HasFields x.1) (htext : PriceIsText x.1)
    (hstep : publishIteration info st x = some st') : Aligned (objs ++ [x.1]) st' := by
  simp only [publishIteration, logDatapoint_of_hasFields hx, Option.some.injEq] at hstep
  subst hstep
  rcases tryPublish_cases hx x.2 st with ⟨args, hargs, heq⟩ | ⟨_, _, heq⟩ | ⟨_, hno, _⟩
  · have hbatch : Aligned (objs ++ [x.1]) { st with result := st.result ++ args } :=
      ⟨h.result.extend hargs, fun c hc => (h.commands c hc).mono x.1⟩
    rw [heq]
    exact hbatch.flush x.2
  · rw [heq]
    exact h.mono x.1
  · exact absurd htext hno

theorem publishIteration_eq_some {info : Bool} {st : Publisher} {x : Object × Bool}
    (hx : HasFields x.1) : publishIteration info st x = some (st.tryPublish x.2 x.1) := by
  simp only [publishIteration, logDatapoint_of_hasFields hx]

/-- **The batch is aligned after every iteration exactly when no object has a
string `"s"` and a `"p"` that is not a string.** -/
theorem publish_aligned_iff (info : Bool) (xs : List (Object × Bool))
    (hfields : ∀ x ∈ xs, HasFields x.1) :
    AlwaysAligned info xs ↔ ∀ x ∈ xs, PriceIsText x.1 := by
  constructor
  · intro h x hx
    by_contra hno
    obtain ⟨pre, post, hsplit⟩ := List.append_of_mem hx
    have hsteps : ∀ st, ∀ y ∈ pre, ∃ st', publishIteration info st y = some st' :=
      fun st y hy => ⟨_, publishIteration_eq_some (hfields y (by simp [hsplit, hy]))⟩
    obtain ⟨st, hst⟩ := Runs.run_total hsteps .start
    rcases tryPublish_cases (hfields x hx) x.2 st with
      ⟨args, hargs, _⟩ | ⟨_, htext, _⟩ | ⟨hconv, _, s, t, heq⟩
    · refine hno fun _ => ?_
      obtain ⟨s, _, hargs⟩ := bind_eq_ok.mp hargs
      obtain ⟨t, _, hargs⟩ := bind_eq_ok.mp hargs
      obtain ⟨p, hp, _⟩ := bind_eq_ok.mp hargs
      exact ⟨p, hp⟩
    · exact hno htext
    · have hsame := h.2 pre x post st hsplit hst hconv
      rw [publishIteration_eq_some (hfields x hx), heq, Option.some.injEq] at hsame
      have hlen := congrArg (fun st => st.result.length) hsame
      simp at hlen
  · intro htext
    refine ⟨?_, ?_⟩
    · intro pre post st hsplit hst
      refine Runs.run_inv_history (P := fun pre st => Aligned (pre.map Prod.fst) st)
        aligned_start ?_ hst
      intro pre' st x st' hx h hstep
      have hmem : x ∈ xs := by rw [hsplit]; exact List.mem_append_left post hx
      rw [List.map_append]
      exact h.iteration (hfields x hmem) (htext x hmem) hstep
    · intro pre x post st hsplit _ hconv
      have hmem : x ∈ xs := by simp [hsplit]
      rw [publishIteration_eq_some (hfields x hmem)]
      rcases tryPublish_cases (hfields x hmem) x.2 st with
        ⟨args, hargs, _⟩ | ⟨_, _, heq⟩ | ⟨_, hno, _⟩
      · exact absurd ⟨args, hargs⟩ hconv
      · rw [heq]
      · exact absurd (htext x hmem) hno

def textPrice : Object :=
  [("s".toList, .string "ETH-USD".toList), ("p".toList, .string "1.5".toList),
    ("t".toList, .int64 10)]

def numericPrice : Object :=
  [("s".toList, .string "ETH-USD".toList), ("p".toList, .double (3 / 2)), ("t".toList, .int64 10)]

theorem hasFields_textPrice : HasFields textPrice := ⟨⟨_, rfl⟩, ⟨_, rfl⟩, _, rfl⟩

theorem hasFields_numericPrice : HasFields numericPrice := ⟨⟨_, rfl⟩, ⟨_, rfl⟩, _, rfl⟩

theorem publish_aligned_text :
    AlwaysAligned true [(textPrice, true), (textPrice, false)] ↔
      ∀ x ∈ [(textPrice, true), (textPrice, false)], PriceIsText x.1 :=
  publish_aligned_iff true [(textPrice, true), (textPrice, false)] (by
    intro x hx
    rcases List.mem_cons.mp hx with rfl | hx
    · exact hasFields_textPrice
    · rw [List.mem_singleton.mp hx]
      exact hasFields_textPrice)

/-- A price that is a number leaves its key and timestamp in the batch. -/
theorem numeric_price_misaligns :
    HasFields numericPrice ∧
      Runs.run (publishIteration true) .start [(numericPrice, true)] =
        some ⟨["TS.MADD".toList, "ETH-USD".toList, "10".toList], 0, []⟩ ∧
      ¬ AlwaysAligned true [(numericPrice, true)] := by
  refine ⟨hasFields_numericPrice, rfl, ?_⟩
  intro h
  have hconv : ¬ Convertible numericPrice := by
    rintro ⟨args, hargs⟩
    cases hargs
  have hsame := h.2 [] (numericPrice, true) [] .start rfl rfl hconv
  have hlen := congrArg (Option.map fun st => st.result.length) hsame
  exact absurd hlen (by decide)

/-! ## Nothing is lost -/

/-- The datapoint of an object with strings `"s"` and `"p"` and an integer
`"t"`. -/
def objectDatapoint (obj : Object) : Except JsonError Datapoint := do
  let s ← stringField obj "s".toList
  let t ← longField obj "t".toList
  let p ← stringField obj "p".toList
  return ⟨s, t, p⟩

def Datapoint.args (d : Datapoint) : List Str := [d.symbol, lexicalCast d.t, d.price]

/-- A `TS.MADD` command for some datapoints. -/
def madd (ds : List Datapoint) : List Str := "TS.MADD".toList :: ds.flatMap Datapoint.args

/-- The commands that succeeded. -/
def Publisher.sent (st : Publisher) : List (List Str) :=
  (st.commands.filter Prod.snd).map Prod.fst

/-- The datapoints of the successful commands and then those of the batch are
`ds`, in order. -/
def Publisher.Carries (st : Publisher) (ds : List Datapoint) : Prop :=
  ∃ (batches : List (List Datapoint)) (pending : List Datapoint),
    st.sent = batches.map madd ∧ st.result = madd pending ∧ batches.flatten ++ pending = ds

theorem madd_append (ds : List Datapoint) (d : Datapoint) : madd ds ++ d.args = madd (ds ++ [d]) := by
  rw [madd, madd, List.flatMap_append, List.flatMap_singleton, List.cons_append]

theorem carries_start : Publisher.start.Carries [] := ⟨[], [], rfl, rfl, rfl⟩

theorem Publisher.Carries.append {st : Publisher} {ds : List Datapoint} (h : st.Carries ds)
    (d : Datapoint) :
    ({ st with result := st.result ++ d.args } : Publisher).Carries (ds ++ [d]) := by
  obtain ⟨batches, pending, hsent, hresult, hds⟩ := h
  refine ⟨batches, pending ++ [d], hsent, ?_, ?_⟩
  · show st.result ++ d.args = madd (pending ++ [d])
    rw [hresult, madd_append]
  · rw [← List.append_assoc, hds]

/-- A command that fails leaves the batch as it is, and one that succeeds
takes it along whole. -/
theorem Publisher.Carries.flush {st : Publisher} {ds : List Datapoint} (h : st.Carries ds)
    (ok : Bool) : (st.flush ok).Carries ds := by
  obtain ⟨batches, pending, hsent, hresult, hds⟩ := h
  unfold Publisher.flush
  split
  · cases ok with
    | false =>
        refine ⟨batches, pending, ?_, hresult, hds⟩
        rw [← hsent]
        simp [Publisher.sent]
    | true =>
        refine ⟨batches ++ [pending], [], ?_, ?_, ?_⟩
        · rw [List.map_append, ← hsent, List.map_singleton, ← hresult]
          simp [Publisher.sent]
        · show st.result.take 1 = madd []
          rw [hresult]
          rfl
        · rw [List.flatten_append, List.flatten_singleton, List.append_nil, hds]
  · exact ⟨batches, pending, hsent, hresult, hds⟩

/-- One iteration on a whole datapoint appends its arguments and looks at the
counter. -/
theorem publishIteration_of_datapoint {obj : Object} {d : Datapoint}
    (hd : objectDatapoint obj = .ok d) (info ok : Bool) (st : Publisher) :
    publishIteration info st (obj, ok) =
      some (({ st with result := st.result ++ d.args } : Publisher).flush ok) := by
  obtain ⟨s, hs, hd⟩ := bind_eq_ok.mp hd
  obtain ⟨t, ht, hd⟩ := bind_eq_ok.mp hd
  obtain ⟨p, hp, hd⟩ := bind_eq_ok.mp hd
  cases hd
  obtain ⟨sv, hsv, _⟩ := bind_eq_ok.mp hs
  obtain ⟨pv, hpv, _⟩ := bind_eq_ok.mp hp
  have heq : st.tryPublish ok obj = ({ st with
      result := st.result ++ Datapoint.args ⟨s, t, p⟩ } : Publisher).flush ok := by
    simp only [Publisher.tryPublish, hs, ht, hp, Publisher.append, Datapoint.args,
      List.append_assoc, List.cons_append, List.nil_append]
  rw [publishIteration_eq_some ⟨⟨sv, hsv⟩, ⟨pv, hpv⟩, t, ht⟩, heq]

theorem Publisher.Carries.iteration {st : Publisher} {ds : List Datapoint} (h : st.Carries ds)
    {obj : Object} {d : Datapoint} (hd : objectDatapoint obj = .ok d) (info ok : Bool) :
    ∃ st', publishIteration info st (obj, ok) = some st' ∧ st'.Carries (ds ++ [d]) :=
  ⟨_, publishIteration_of_datapoint hd info ok st, (h.append d).flush ok⟩

/-- A run of whole datapoints, from any state. -/
theorem Publisher.Carries.run (info : Bool) {xs : List (Object × Bool)} {ds : List Datapoint}
    (hxs : List.Forall₂ (fun x d => objectDatapoint x.1 = .ok d) xs ds) :
    ∀ {st : Publisher} {ds₀ : List Datapoint}, st.Carries ds₀ →
      ∃ st', Runs.run (publishIteration info) st xs = some st' ∧ st'.Carries (ds₀ ++ ds) := by
  induction hxs with
  | nil =>
      intro st ds₀ h
      exact ⟨st, rfl, by rwa [List.append_nil]⟩
  | @cons x d xs ds hd _ ih =>
      intro st ds₀ h
      obtain ⟨st₁, hstep, h₁⟩ := h.iteration hd info x.2
      obtain ⟨st', hrun, h'⟩ := ih h₁
      refine ⟨st', Runs.run_cons_eq_some.mpr ⟨st₁, hstep, hrun⟩, ?_⟩
      rwa [List.append_assoc] at h'

/-- **After any number of iterations on whole datapoints, whichever commands
have failed, the datapoints sent and those in the batch are the ones popped,
in order.** -/
theorem datapoints_kept (info : Bool) {xs : List (Object × Bool)} {ds : List Datapoint}
    (hxs : List.Forall₂ (fun x d => objectDatapoint x.1 = .ok d) xs ds) (n : Nat) :
    ∃ st, Runs.run (publishIteration info) .start (xs.take n) = some st ∧
      st.Carries (ds.take n) := by
  obtain ⟨st, hrun, h⟩ := carries_start.run info (List.forall₂_take n hxs)
  exact ⟨st, hrun, by rwa [List.nil_append] at h⟩

/-- Twelve datapoints, of which the eleventh and the twelfth each fill the
batch; the first of the two commands fails. -/
def twelveTicks : List (Object × Bool) :=
  List.replicate 10 (textPrice, true) ++ [(textPrice, false), (textPrice, true)]

theorem datapoints_kept_twelve :
    ∃ st, Runs.run (publishIteration true) .start (twelveTicks.take 12) = some st ∧
      st.Carries ((List.replicate 12 ⟨"ETH-USD".toList, 10, "1.5".toList⟩).take 12) := by
  have htick : objectDatapoint textPrice = .ok ⟨"ETH-USD".toList, 10, "1.5".toList⟩ := rfl
  refine datapoints_kept true ?_ 12
  simp [twelveTicks, List.replicate, htick]

/-! ## How many datapoints a command carries -/

/-- What the batch size asks for: that every command carries exactly so many
datapoints, and that fewer are waiting. -/
structure Publisher.Batched (st : Publisher) : Prop where
  commands : ∀ c ∈ st.commands, ∃ ds, c.1 = madd ds ∧ (ds.length : Int) = redisBatchSize
  pending : ∃ ds, st.result = madd ds ∧ (ds.length : Int) ≤ redisBatchSize - 1

def AlwaysBatched (info : Bool) (xs : List (Object × Bool)) : Prop :=
  ∀ pre post st, xs = pre ++ post →
    Runs.run (publishIteration info) .start pre = some st → st.Batched

/-- What the loop does instead as long as no command fails: the counter says
how many datapoints are waiting, there may be as many as the batch size, and a
command takes one more along. -/
structure Publisher.Filled (st : Publisher) (batches : List (List Datapoint))
    (pending : List Datapoint) : Prop where
  commands : st.commands.map Prod.fst = batches.map madd
  sizes : ∀ b ∈ batches, (b.length : Int) = redisBatchSize + 1
  result : st.result = madd pending
  count : st.count = pending.length
  le : (pending.length : Int) ≤ redisBatchSize

theorem length_madd (ds : List Datapoint) : (madd ds).length = 3 * ds.length + 1 := by
  induction ds with
  | nil => rfl
  | cons d ds ih =>
      have hcons : (madd (d :: ds)).length = (madd ds).length + 3 := rfl
      rw [hcons, ih, List.length_cons]
      omega

theorem filled_start : Publisher.start.Filled [] [] where
  commands := rfl
  sizes _ hb := absurd hb List.not_mem_nil
  result := rfl
  count := rfl
  le := by decide

/-- The commands given so far stay the first ones. -/
theorem flush_commands (ok : Bool) (st : Publisher) : st.commands <+: (st.flush ok).commands := by
  unfold Publisher.flush
  split
  · cases ok <;> exact List.prefix_append _ _
  · exact List.prefix_rfl

/-- One iteration on a whole datapoint, whose command does not fail if it is
given. -/
theorem Publisher.Filled.iteration {st : Publisher} {batches : List (List Datapoint)}
    {pending : List Datapoint} (h : st.Filled batches pending) (d : Datapoint) {ok : Bool}
    (hok : ∀ c ∈ (({ st with result := st.result ++ d.args } : Publisher).flush ok).commands,
      c.2 = true) :
    ∃ batches' pending',
      (({ st with result := st.result ++ d.args } : Publisher).flush ok).Filled batches' pending' ∧
        batches'.flatten ++ pending' = batches.flatten ++ (pending ++ [d]) := by
  have hresult : st.result ++ d.args = madd (pending ++ [d]) := by
    rw [h.result, madd_append]
  have hlength : ((pending ++ [d]).length : Int) = st.count + 1 := by
    rw [h.count, List.length_append, List.length_singleton]
    rfl
  have hle := h.le
  rw [← h.count] at hle
  unfold Publisher.flush at hok ⊢
  split at hok
  · next hfull =>
      rw [if_pos hfull]
      have htrue : ok = true := by
        cases ok with
        | true => rfl
        | false => exact hok _ (List.mem_append_right _ (List.mem_singleton.mpr rfl))
      subst htrue
      refine ⟨batches ++ [pending ++ [d]], [], ⟨?_, ?_, ?_, rfl, by decide⟩, ?_⟩
      · show (st.commands ++ [(st.result ++ d.args, true)]).map Prod.fst = _
        rw [List.map_append, List.map_append, h.commands, hresult]
        rfl
      · intro b hb
        rcases List.mem_append.mp hb with hb | hb
        · exact h.sizes b hb
        · rw [List.mem_singleton.mp hb, hlength]
          exact congrArg (· + 1) (Int.le_antisymm hle hfull)
      · show (st.result ++ d.args).take 1 = madd []
        rw [hresult]
        rfl
      · rw [List.flatten_append, List.flatten_singleton, List.append_nil]
  · next hroom =>
      rw [if_neg hroom]
      refine ⟨batches, pending ++ [d], ⟨h.commands, h.sizes, hresult, hlength.symm, ?_⟩, rfl⟩
      rw [hlength]
      exact Int.not_le.mp hroom

/-- The commands given so far stay the first ones, through any iteration. -/
theorem iteration_commands {info : Bool} {st st' : Publisher} {x : Object × Bool}
    (h : publishIteration info st x = some st') : st.commands <+: st'.commands := by
  unfold publishIteration at h
  split at h
  · cases h
  · cases h
    unfold Publisher.tryPublish
    split
    · exact List.prefix_rfl
    · split
      · exact List.prefix_rfl
      · split
        · exact List.prefix_rfl
        · exact flush_commands x.2 (((st.append _).append _).append _)

theorem run_commands {info : Bool} {st st' : Publisher} {xs : List (Object × Bool)}
    (h : Runs.run (publishIteration info) st xs = some st') : st.commands <+: st'.commands :=
  Runs.run_inv (P := fun s : Publisher => st.commands <+: s.commands) (G := fun _ => True)
    (fun hs _ hstep => hs.trans (iteration_commands hstep)) List.prefix_rfl (fun _ _ => trivial) h

/-- A run of whole datapoints in which no command fails. -/
theorem Publisher.Filled.run (info : Bool) {xs : List (Object × Bool)} {ds : List Datapoint}
    (hxs : List.Forall₂ (fun x d => objectDatapoint x.1 = .ok d) xs ds) {st' : Publisher}
    (hok : ∀ c ∈ st'.commands, c.2 = true) :
    ∀ {st : Publisher} {batches : List (List Datapoint)} {pending : List Datapoint},
      st.Filled batches pending → Runs.run (publishIteration info) st xs = some st' →
        ∃ batches' pending', st'.Filled batches' pending' ∧
          batches'.flatten ++ pending' = batches.flatten ++ (pending ++ ds) := by
  induction hxs with
  | nil =>
      intro st batches pending h hrun
      cases hrun
      exact ⟨batches, pending, h, by rw [List.append_nil]⟩
  | @cons x d xs ds hd _ ih =>
      intro st batches pending h hrun
      obtain ⟨st₁, hstep, hrest⟩ := Runs.run_cons_eq_some.mp hrun
      cases (publishIteration_of_datapoint hd info x.2 st).symm.trans hstep
      obtain ⟨batches₁, pending₁, h₁, heq₁⟩ :=
        h.iteration d fun c hc => hok c ((run_commands hrest).subset hc)
      obtain ⟨batches', pending', h', heq'⟩ := ih h₁ hrest
      refine ⟨batches', pending', h', ?_⟩
      rw [heq', ← List.append_assoc, heq₁, List.append_assoc, List.append_assoc]
      rfl

/-- Up to the batch size no command is given, and every datapoint is
waiting. -/
theorem filled_of_few (info : Bool) {xs : List (Object × Bool)} {ds : List Datapoint}
    (hxs : List.Forall₂ (fun x d => objectDatapoint x.1 = .ok d) xs ds)
    (hfew : (xs.length : Int) ≤ redisBatchSize) {st : Publisher}
    (hok : ∀ c ∈ st.commands, c.2 = true)
    (hrun : Runs.run (publishIteration info) .start xs = some st) :
    st.commands = [] ∧ st.result = madd ds := by
  obtain ⟨batches, pending, h, heq⟩ := filled_start.run info hxs hok hrun
  have hlength : batches.flatten.length + pending.length = xs.length := by
    rw [← List.length_append, heq, hxs.length_eq]
    rfl
  have hnone : batches = [] := by
    cases hb : batches with
    | nil => rfl
    | cons b rest =>
        have hsize := h.sizes b (hb ▸ List.mem_cons_self)
        rw [hb, List.flatten_cons, List.length_append] at hlength
        omega
  subst hnone
  refine ⟨List.map_eq_nil_iff.mp h.commands, ?_⟩
  rw [h.result]
  exact congrArg madd heq

/-- **In a run of whole datapoints in which no command fails, every command
carries exactly as many datapoints as the batch size says, and fewer are
waiting in between, exactly when fewer than that are popped at all.** -/
theorem alwaysBatched_iff (info : Bool) {xs : List (Object × Bool)} {ds : List Datapoint}
    (hxs : List.Forall₂ (fun x d => objectDatapoint x.1 = .ok d) xs ds)
    (hok : ∀ st, Runs.run (publishIteration info) .start xs = some st →
      ∀ c ∈ st.commands, c.2 = true) :
    AlwaysBatched info xs ↔ (xs.length : Int) < redisBatchSize := by
  obtain ⟨last, hlast, _⟩ := carries_start.run info hxs
  have hokpre : ∀ {pre post st}, xs = pre ++ post →
      Runs.run (publishIteration info) .start pre = some st → ∀ c ∈ st.commands, c.2 = true := by
    intro pre post st hsplit hst c hc
    rw [hsplit, Runs.run_append_of_run hst] at hlast
    rw [hsplit, Runs.run_append_of_run hst] at hok
    exact hok last hlast c ((run_commands hlast).subset hc)
  constructor
  · intro h
    by_contra hno
    -- the state in which the batch size is reached, and nothing has been sent
    set n := redisBatchSize.toNat with hn
    have hpos : 0 ≤ redisBatchSize := by decide
    have hsplit := (List.take_append_drop n xs).symm
    obtain ⟨st, hst, _⟩ := carries_start.run info (List.forall₂_take n hxs)
    have hlength : (xs.take n).length = n := by
      rw [List.length_take]
      omega
    obtain ⟨_, hresult⟩ := filled_of_few info (List.forall₂_take n hxs) (by omega)
      (hokpre hsplit hst) hst
    obtain ⟨ds', hds', hle⟩ := (h _ _ st hsplit hst).pending
    have hsame := congrArg List.length (hresult.symm.trans hds')
    rw [length_madd, length_madd, ← (List.forall₂_take n hxs).length_eq, hlength] at hsame
    omega
  · intro hfew pre post st hsplit hst
    have hpre := List.forall₂_take pre.length hxs
    rw [hsplit, List.take_left] at hpre
    have hlength : pre.length ≤ xs.length := by
      rw [hsplit, List.length_append]
      exact Nat.le_add_right _ _
    obtain ⟨hcommands, hresult⟩ := filled_of_few info hpre (by omega) (hokpre hsplit hst) hst
    refine ⟨?_, ds.take pre.length, hresult, ?_⟩
    · rw [hcommands]
      exact fun c hc => absurd hc List.not_mem_nil
    · rw [← hpre.length_eq]
      omega

/-- Eleven datapoints; the command they fill does not fail. -/
def elevenTicks : List (Object × Bool) := List.replicate 11 (textPrice, true)

theorem alwaysBatched_eleven :
    AlwaysBatched true elevenTicks ↔ (elevenTicks.length : Int) < redisBatchSize := by
  have htick : objectDatapoint textPrice = .ok ⟨"ETH-USD".toList, 10, "1.5".toList⟩ := rfl
  have hticks : List.Forall₂ (fun x d => objectDatapoint x.1 = .ok d) elevenTicks
      (List.replicate 11 ⟨"ETH-USD".toList, 10, "1.5".toList⟩) := by
    simp [elevenTicks, List.replicate, htick]
  refine alwaysBatched_iff true hticks ?_
  intro st hst
  cases hst
  decide

/-- After ten datapoints as many are waiting, and the eleventh is sent along
with them. -/
theorem eleven_in_one_command :
    ∃ st, Runs.run (publishIteration true) .start elevenTicks = some st ∧
      st.commands =
        [(madd (List.replicate 11 ⟨"ETH-USD".toList, 10, "1.5".toList⟩), true)] ∧
      ¬ AlwaysBatched true elevenTicks := by
  refine ⟨_, rfl, rfl, ?_⟩
  intro h
  obtain ⟨ds, hds, hten⟩ :=
    (h elevenTicks [] _ (List.append_nil _).symm rfl).commands _ List.mem_cons_self
  have hlength := congrArg List.length hds
  rw [length_madd, Int.ofNat.inj hten] at hlength
  cases hlength

end SravzBackend.Redis
