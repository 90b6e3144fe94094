/-
# `Redis.Parse` — the staleness filter of `RedisSubscriber::parse`

The loop takes one message at a time from `spsc_queue_parse_` and keeps one
local variable, `last_timestamp`.  An iteration ends in one of three ways: it
pushes the object to `spsc_queue_publish_`, it drops the message as stale
(`continue`), or something throws and the catch handler logs it.

The variable is updated between the two groups of steps that can throw: after
the text has been parsed and `"t"` read, before the log statement reads `"s"`
and `"p"`.  That statement evaluates its operands only while info logging is
enabled, so with a higher level objects without `"s"` or `"p"` are pushed.

`lastTimestamp_eq` says what the variable is after any sequence of messages:
the greatest of 0 and every integer `"t"` seen, accepted or not.  Two
questions are then settled by the input alone:

* which datapoints that are in order for their own symbol are dropped all the
  same (`in_order_kept_iff`), the variable being one for all symbols;
* which rejected messages change what is pushed after them
  (`pushed_without_rejected_iff`), the variable being updated before the
  rejection.

Of what is pushed, `filter_of_any_messages` says that it is in order.
-/
import Mathlib.Algebra.Order.Ring.Int
import Mathlib.Order.Bounds.Basic
import SravzBackend.Json

namespace SravzBackend.Redis

variable (parseJson : JsonParser) (info : Bool)

/-! ## One iteration -/

inductive Outcome where
  | pushed (obj : Object)
  | stale
  | rejected (e : JsonError)

/-- The object and the timestamp, as the first steps of the iteration read
them. -/
def timestamped (msg : Str) : Except JsonError (Object × Int) := do
  let val ← parseJson msg
  let obj ← val.asObject
  let t ← objectAt obj "t".toList
  let cur ← t.toLong
  return (obj, cur)

/-- `BOOST_LOG_TRIVIAL(info) << obj.at("s") << obj.at("p") << obj.at("t")`. -/
def logDatapoint (obj : Object) : Except JsonError Unit :=
  if info then do
    let _ ← objectAt obj "s".toList
    let _ ← objectAt obj "p".toList
    let _ ← objectAt obj "t".toList
  else
    return ()

/-- One iteration of `RedisSubscriber::parse`: the new `last_timestamp`, and
how the iteration ended. -/
def parseIteration (last_timestamp : Int) (msg : Str) : Int × Outcome :=
  match timestamped parseJson msg with
  | .error e => (last_timestamp, .rejected e)
  | .ok (obj, cur_last_timestamp) =>
      if last_timestamp > cur_last_timestamp then
        (last_timestamp, .stale)
      else
        match logDatapoint info obj with
        | .error e => (cur_last_timestamp, .rejected e)
        | .ok () => (cur_last_timestamp, .pushed obj)

/-! ## The loop -/

/-- `last_timestamp` once the messages have been handled. -/
def lastTimestamp : Int → List Str → Int
  | last, [] => last
  | last, msg :: msgs => lastTimestamp (parseIteration parseJson info last msg).1 msgs

/-- The objects pushed to `spsc_queue_publish_`, oldest first. -/
def pushed : Int → List Str → List Object
  | _, [] => []
  | last, msg :: msgs =>
      let (last', outcome) := parseIteration parseJson info last msg
      match outcome with
      | .pushed obj => obj :: pushed last' msgs
      | .stale => pushed last' msgs
      | .rejected _ => pushed last' msgs

/-- The integer `"t"` of a message, if it has one. -/
def integerT (msg : Str) : Option Int :=
  match timestamped parseJson msg with
  | .ok (_, t) => some t
  | .error _ => none

/-- The log statement would not throw on the message's object. -/
def Loggable (msg : Str) : Prop :=
  ∃ obj t, timestamped parseJson msg = .ok (obj, t) ∧ logDatapoint info obj = .ok ()

variable {parseJson info}

theorem pushed_append (last : Int) (xs ys : List Str) :
    pushed parseJson info last (xs ++ ys) =
      pushed parseJson info last xs ++
        pushed parseJson info (lastTimestamp parseJson info last xs) ys := by
  induction xs generalizing last with
  | nil => rfl
  | cons x xs ih =>
      simp only [List.cons_append, pushed, lastTimestamp, ih]
      cases (parseIteration parseJson info last x).2 <;> rfl

theorem integerT_eq_some {msg : Str} {t : Int} :
    integerT parseJson msg = some t ↔ ∃ obj, timestamped parseJson msg = .ok (obj, t) := by
  unfold integerT
  cases hm : timestamped parseJson msg with
  | error e => simp
  | ok r =>
      obtain ⟨obj, cur⟩ := r
      simp

variable (info) in
/-- A message without an integer `"t"` is rejected before the variable is
touched. -/
theorem parseIteration_of_no_t (last : Int) {msg : Str} (h : integerT parseJson msg = none) :
    ∃ e, parseIteration parseJson info last msg = (last, .rejected e) := by
  cases hm : timestamped parseJson msg with
  | error e => exact ⟨e, by simp only [parseIteration, hm]⟩
  | ok r =>
      rw [integerT_eq_some.mpr ⟨r.1, hm⟩] at h
      cases h

theorem parseIteration_of_older {last t : Int} {msg : Str}
    (h : integerT parseJson msg = some t) (hlt : t < last) :
    parseIteration parseJson info last msg = (last, .stale) := by
  obtain ⟨obj, hm⟩ := integerT_eq_some.mp h
  simp only [parseIteration, hm, gt_iff_lt, if_pos hlt]

variable (info) in
/-- A message that is not stale moves the variable, whether it is pushed or
rejected by the log statement. -/
theorem parseIteration_of_newer {t : Int} {msg : Str} (h : integerT parseJson msg = some t) :
    (Loggable parseJson info msg ∧ ∃ obj, ∀ last' ≤ t,
        parseIteration parseJson info last' msg = (t, .pushed obj)) ∨
      (¬ Loggable parseJson info msg ∧ ∃ e, ∀ last' ≤ t,
        parseIteration parseJson info last' msg = (t, .rejected e)) := by
  obtain ⟨obj, hm⟩ := integerT_eq_some.mp h
  cases hlog : logDatapoint info obj with
  | ok u =>
      refine Or.inl ⟨⟨obj, t, hm, hlog⟩, obj, ?_⟩
      intro last' hle'
      simp only [parseIteration, hm, gt_iff_lt, if_neg (not_lt.mpr hle'), hlog]
  | error e =>
      refine Or.inr ⟨?_, e, ?_⟩
      · rintro ⟨obj', t', hm', hlog'⟩
        rw [hm] at hm'
        cases hm'
        rw [hlog] at hlog'
        cases hlog'
      · intro last' hle'
        simp only [parseIteration, hm, gt_iff_lt, if_neg (not_lt.mpr hle'), hlog]

/-! ## What the variable is -/

/-- One iteration takes the variable to the greater of itself and the
message's integer `"t"`. -/
theorem parseIteration_fst (last : Int) (msg : Str) :
    (parseIteration parseJson info last msg).1 =
      match integerT parseJson msg with
      | some t => max last t
      | none => last := by
  cases h : integerT parseJson msg with
  | none =>
      obtain ⟨e, he⟩ := parseIteration_of_no_t info last h
      rw [he]
  | some t =>
      simp only
      rcases lt_or_ge t last with hlt | hle
      · rw [parseIteration_of_older h hlt, max_eq_left hlt.le]
      · rw [max_eq_right hle]
        rcases parseIteration_of_newer info h with ⟨_, obj, hp⟩ | ⟨_, e, hp⟩
        · rw [hp last hle]
        · rw [hp last hle]

/-- **`last_timestamp` is the greatest of its first value and every integer
`"t"` seen so far**, dropped and rejected messages included. -/
theorem lastTimestamp_eq (last : Int) (msgs : List Str) :
    lastTimestamp parseJson info last msgs =
      (msgs.filterMap (integerT parseJson)).foldl max last := by
  induction msgs generalizing last with
  | nil => rfl
  | cons msg msgs ih =>
      rw [lastTimestamp, ih, parseIteration_fst]
      cases h : integerT parseJson msg with
      | none => rw [List.filterMap_cons_none h]
      | some t => rw [List.filterMap_cons_some h]; rfl

theorem foldl_max_le_iff {last t : Int} {ts : List Int} :
    ts.foldl max last ≤ t ↔ last ≤ t ∧ ∀ t' ∈ ts, t' ≤ t := by
  induction ts generalizing last with
  | nil => simp
  | cons x xs ih => simp [ih, and_assoc]

/-- A timestamp is in order after some messages exactly when it is in order
after their first value and none of them had a greater integer `"t"`. -/
theorem lastTimestamp_le_iff {last t : Int} {msgs : List Str} :
    lastTimestamp parseJson info last msgs ≤ t ↔
      last ≤ t ∧ ∀ m ∈ msgs, ∀ t', integerT parseJson m = some t' → t' ≤ t := by
  rw [lastTimestamp_eq, foldl_max_le_iff]
  refine and_congr_right fun _ => ?_
  constructor
  · intro h m hm t' ht'
    exact h t' (List.mem_filterMap.mpr ⟨m, hm, ht'⟩)
  · intro h t' ht'
    obtain ⟨m, hm, hmt⟩ := List.mem_filterMap.mp ht'
    exact h m hm t' hmt

/-! ## Datapoints, symbol by symbol -/

structure Datapoint where
  symbol : Str
  t : Int
  price : Str

/-- A well-formed datapoint: a JSON object with strings `"s"` and `"p"` and
an integer `"t"`. -/
def datapoint (parseJson : JsonParser) (msg : Str) : Except JsonError Datapoint := do
  let (obj, t) ← timestamped parseJson msg
  let s ← objectAt obj "s".toList
  let symbol ← s.toStr
  let p ← objectAt obj "p".toList
  let price ← p.toStr
  return ⟨symbol, t, price⟩

/-- Some message of `pre` is a well-formed datapoint of `d`'s own symbol with
a strictly greater timestamp. -/
def OwnSymbolAhead (parseJson : JsonParser) (pre : List Str) (d : Datapoint) : Prop :=
  ∃ m ∈ pre, ∃ d', datapoint parseJson m = .ok d' ∧ d'.symbol = d.symbol ∧ d.t < d'.t

/-- Handling `msg` after `pre` pushes its object. -/
def PushedAfter (parseJson : JsonParser) (info : Bool) (pre : List Str) (msg : Str) : Prop :=
  ∃ obj, (parseIteration parseJson info (lastTimestamp parseJson info 0 pre) msg).2 = .pushed obj

/-- Every well-formed datapoint that is not pushed was out of order for its
own symbol. -/
def InOrderKept (parseJson : JsonParser) (info : Bool) (msgs : List Str) : Prop :=
  ∀ pre msg post d, msgs = pre ++ msg :: post → datapoint parseJson msg = .ok d →
    ¬ PushedAfter parseJson info pre msg → OwnSymbolAhead parseJson pre d

/-- No datapoint that is in order for its own symbol is negative or older
than an earlier message, of whatever symbol. -/
def OnlyOwnSymbolOvertakes (parseJson : JsonParser) (msgs : List Str) : Prop :=
  ∀ pre msg post d, msgs = pre ++ msg :: post → datapoint parseJson msg = .ok d →
    (d.t < 0 ∨ ∃ m ∈ pre, ∃ t, integerT parseJson m = some t ∧ d.t < t) →
      OwnSymbolAhead parseJson pre d

theorem objectAt_t_of_timestamped {msg : Str} {obj : Object} {t : Int}
    (h : timestamped parseJson msg = .ok (obj, t)) : ∃ v, objectAt obj "t".toList = .ok v := by
  unfold timestamped at h
  obtain ⟨val, _, h⟩ := bind_eq_ok.mp h
  obtain ⟨obj', _, h⟩ := bind_eq_ok.mp h
  obtain ⟨v, hv, h⟩ := bind_eq_ok.mp h
  obtain ⟨cur, _, h⟩ := bind_eq_ok.mp h
  cases h
  exact ⟨v, hv⟩

variable (info) in
theorem datapoint_spec {msg : Str} {d : Datapoint} (h : datapoint parseJson msg = .ok d) :
    integerT parseJson msg = some d.t ∧ Loggable parseJson info msg := by
  unfold datapoint at h
  obtain ⟨⟨obj, t⟩, hmsg, h⟩ := bind_eq_ok.mp h
  obtain ⟨s, hs, h⟩ := bind_eq_ok.mp h
  obtain ⟨symbol, _, h⟩ := bind_eq_ok.mp h
  obtain ⟨p, hp, h⟩ := bind_eq_ok.mp h
  obtain ⟨price, _, h⟩ := bind_eq_ok.mp h
  cases h
  refine ⟨integerT_eq_some.mpr ⟨obj, hmsg⟩, obj, t, hmsg, ?_⟩
  obtain ⟨v, hv⟩ := objectAt_t_of_timestamped hmsg
  unfold logDatapoint
  cases info with
  | false => rfl
  | true =>
      simp only [if_true, hs, hp, hv]
      rfl

/-- A well-formed datapoint is pushed exactly when its timestamp is not
negative and not below any integer `"t"` seen before it. -/
theorem pushedAfter_iff {pre : List Str} {msg : Str} {d : Datapoint}
    (h : datapoint parseJson msg = .ok d) :
    PushedAfter parseJson info pre msg ↔
      ¬ (d.t < 0 ∨ ∃ m ∈ pre, ∃ t, integerT parseJson m = some t ∧ d.t < t) := by
  obtain ⟨ht, hlog⟩ := datapoint_spec info h
  have hle : lastTimestamp parseJson info 0 pre ≤ d.t ↔
      ¬ (d.t < 0 ∨ ∃ m ∈ pre, ∃ t, integerT parseJson m = some t ∧ d.t < t) := by
    rw [lastTimestamp_le_iff]
    push Not
    rfl
  rw [← hle]
  unfold PushedAfter
  rcases lt_or_ge d.t (lastTimestamp parseJson info 0 pre) with hlt | hge
  · rw [parseIteration_of_older ht hlt]
    simp [hlt]
  · rcases parseIteration_of_newer info ht with ⟨_, obj, hp⟩ | ⟨hno, _⟩
    · rw [hp _ hge]
      simp [hge]
    · exact absurd hlog hno

/-- **Datapoints in order for their own symbol are all kept exactly when no
other message overtakes them.** -/
theorem in_order_kept_iff (parseJson : JsonParser) (info : Bool) (msgs : List Str) :
    InOrderKept parseJson info msgs ↔ OnlyOwnSymbolOvertakes parseJson msgs := by
  unfold InOrderKept OnlyOwnSymbolOvertakes
  constructor
  · intro h pre msg post d hsplit hd hover
    refine h pre msg post d hsplit hd ?_
    rw [pushedAfter_iff hd, not_not]
    exact hover
  · intro h pre msg post d hsplit hd hnot
    refine h pre msg post d hsplit hd ?_
    rwa [pushedAfter_iff hd, not_not] at hnot

def ethTick : Str := "\x7b\"s\":\"ETH-USD\",\"p\":\"1\",\"t\":10\x7d".toList

def btcTick : Str := "\x7b\"s\":\"BTC-USD\",\"p\":\"2\",\"t\":5\x7d".toList

def bareTimestamp : Str := "\x7b\"t\":100\x7d".toList

/-- A feed of two symbols, and a message that has a timestamp only. -/
def feed : JsonParser := tableParser
  [(ethTick, .object [("s".toList, .string "ETH-USD".toList), ("p".toList, .string "1".toList),
      ("t".toList, .int64 10)]),
    (btcTick, .object [("s".toList, .string "BTC-USD".toList), ("p".toList, .string "2".toList),
      ("t".toList, .int64 5)]),
    (bareTimestamp, .object [("t".toList, .int64 100)])]

/-- The first `BTC-USD` datapoint is dropped, being older than an `ETH-USD`
one. -/
theorem first_of_symbol_dropped : ¬ InOrderKept feed true [ethTick, btcTick] := by
  intro h
  have hstale : (parseIteration feed true (lastTimestamp feed true 0 [ethTick]) btcTick).2 =
      .stale := rfl
  have hnot : ¬ PushedAfter feed true [ethTick] btcTick := by
    rintro ⟨obj, hobj⟩
    rw [hstale] at hobj
    cases hobj
  obtain ⟨m, hm, d', hd', hsym, _⟩ := h [ethTick] btcTick [] _ rfl rfl hnot
  obtain rfl := List.mem_singleton.mp hm
  cases hd'
  exact absurd hsym (by decide)

/-! ## What is pushed is in order -/

/-- The integer `"t"` of an object. -/
def objectT (obj : Object) : Except JsonError Int := do
  let t ← objectAt obj "t".toList
  t.toLong

theorem objectT_of_timestamped {msg : Str} {obj : Object} {t : Int}
    (h : timestamped parseJson msg = .ok (obj, t)) : objectT obj = .ok t := by
  unfold timestamped at h
  obtain ⟨val, _, h⟩ := bind_eq_ok.mp h
  obtain ⟨obj', _, h⟩ := bind_eq_ok.mp h
  obtain ⟨v, hv, h⟩ := bind_eq_ok.mp h
  obtain ⟨cur, hcur, h⟩ := bind_eq_ok.mp h
  cases h
  exact bind_eq_ok.mpr ⟨v, hv, hcur⟩

/-- An object that is pushed has the value of the variable as its `"t"`. -/
theorem objectT_of_pushed {last last' : Int} {msg : Str} {obj : Object}
    (h : parseIteration parseJson info last msg = (last', .pushed obj)) :
    objectT obj = .ok last' := by
  unfold parseIteration at h
  split at h
  · cases h
  · next obj' cur hmsg =>
      split at h
      · cases h
      · split at h
        · cases h
        · cases h
          exact objectT_of_timestamped hmsg

variable (parseJson) (info) in
theorem le_parseIteration_fst (last : Int) (msg : Str) :
    last ≤ (parseIteration parseJson info last msg).1 := by
  rw [parseIteration_fst]
  cases integerT parseJson msg with
  | none => exact le_refl last
  | some t => exact le_max_left last t

variable (parseJson) (info) in
/-- The timestamps of what is pushed do not fall, nor begin below the
variable. -/
theorem pushed_ordered (last : Int) (msgs : List Str) :
    ∃ ts : List Int, (pushed parseJson info last msgs).map objectT = ts.map .ok ∧
      (last :: ts).Pairwise (· ≤ ·) := by
  induction msgs generalizing last with
  | nil => exact ⟨[], rfl, List.pairwise_singleton _ last⟩
  | cons msg msgs ih =>
      have hle := le_parseIteration_fst parseJson info last msg
      rcases hstep : parseIteration parseJson info last msg with ⟨last', outcome⟩
      rw [hstep] at hle
      obtain ⟨ts, hts, hordered⟩ := ih last'
      obtain ⟨hleast, hrest⟩ := List.pairwise_cons.mp hordered
      -- what comes after the variable in the rest comes after its old value
      have hlast : ∀ t ∈ ts, last ≤ t := fun t ht => le_trans hle (hleast t ht)
      rw [pushed, hstep]
      cases outcome with
      | pushed obj =>
          refine ⟨last' :: ts, ?_, ?_⟩
          · simp only [List.map_cons, hts, objectT_of_pushed hstep]
          · refine List.pairwise_cons.mpr ⟨?_, hordered⟩
            intro t ht
            rcases List.mem_cons.mp ht with rfl | ht
            · exact hle
            · exact hlast t ht
      | stale => exact ⟨ts, hts, List.pairwise_cons.mpr ⟨hlast, hrest⟩⟩
      | rejected e => exact ⟨ts, hts, List.pairwise_cons.mpr ⟨hlast, hrest⟩⟩

theorem mem_or_eq_foldl_max (last : Int) (ts : List Int) :
    ts.foldl max last = last ∨ ts.foldl max last ∈ ts := by
  induction ts generalizing last with
  | nil => exact .inl rfl
  | cons t ts ih =>
      rw [List.foldl_cons, List.mem_cons]
      rcases ih (max last t) with h | h
      · rw [h]
        rcases max_choice last t with hmax | hmax
        · exact .inl hmax
        · exact .inr (.inl hmax)
      · exact .inr (.inr h)

/-- `last_timestamp` is the maximum of 0 and the integers `"t"` seen so far. -/
theorem lastTimestamp_isGreatest (msgs : List Str) :
    IsGreatest {t | t = 0 ∨ ∃ m ∈ msgs, integerT parseJson m = some t}
      (lastTimestamp parseJson info 0 msgs) := by
  constructor
  · rw [lastTimestamp_eq]
    exact (mem_or_eq_foldl_max 0 _).imp_right List.mem_filterMap.mp
  · obtain ⟨hzero, hmsgs⟩ := lastTimestamp_le_iff.mp
      (le_refl (lastTimestamp parseJson info 0 msgs))
    rintro t (rfl | ⟨m, hm, ht⟩)
    · exact hzero
    · exact hmsgs m hm t ht

/-- **Whatever the messages, what is pushed is in order and not negative,
`last_timestamp` is always the maximum of 0 and what has been seen, and a
well-formed message is left out only when its timestamp is below it.** -/
theorem filter_of_any_messages (parseJson : JsonParser) (info : Bool) (msgs : List Str) :
    (∃ ts : List Int, (pushed parseJson info 0 msgs).map objectT = ts.map .ok ∧
        (∀ t ∈ ts, 0 ≤ t) ∧ ts.Pairwise (· ≤ ·)) ∧
      (∀ pre post, msgs = pre ++ post →
        IsGreatest {t | t = 0 ∨ ∃ m ∈ pre, integerT parseJson m = some t}
          (lastTimestamp parseJson info 0 pre)) ∧
      ∀ pre msg post d, msgs = pre ++ msg :: post → datapoint parseJson msg = .ok d →
        ¬ PushedAfter parseJson info pre msg → d.t < lastTimestamp parseJson info 0 pre := by
  refine ⟨?_, fun pre _ _ => lastTimestamp_isGreatest pre, ?_⟩
  · obtain ⟨ts, hts, hordered⟩ := pushed_ordered parseJson info 0 msgs
    exact ⟨ts, hts, List.pairwise_cons.mp hordered⟩
  · intro pre msg post d _ hd hnot
    by_contra hge
    obtain ⟨hzero, hpre⟩ := lastTimestamp_le_iff.mp (not_lt.mp hge)
    refine hnot ((pushedAfter_iff hd).mpr ?_)
    rintro (hneg | ⟨m, hm, t, ht, hlt⟩)
    · exact absurd hzero (not_le.mpr hneg)
    · exact absurd (hpre m hm t ht) (not_le.mpr hlt)

/-! ## One message more, one message less -/

theorem pushed_cons_of_no_t {last : Int} {msg : Str} (h : integerT parseJson msg = none)
    (msgs : List Str) :
    pushed parseJson info last (msg :: msgs) = pushed parseJson info last msgs := by
  obtain ⟨e, he⟩ := parseIteration_of_no_t info last h
  rw [pushed, he]

theorem pushed_cons_of_older {last t : Int} {msg : Str} (h : integerT parseJson msg = some t)
    (hlt : t < last) (msgs : List Str) :
    pushed parseJson info last (msg :: msgs) = pushed parseJson info last msgs := by
  rw [pushed, parseIteration_of_older h hlt]

variable (info) in
/-- A message that is not stale does the same whatever the variable was. -/
theorem pushed_cons_of_newer {t : Int} {msg : Str} (h : integerT parseJson msg = some t) :
    ∃ objs : List Object, (objs ≠ [] ↔ Loggable parseJson info msg) ∧
      ∀ last ≤ t, ∀ msgs, pushed parseJson info last (msg :: msgs) =
        objs ++ pushed parseJson info t msgs := by
  rcases parseIteration_of_newer info h with ⟨hlog, obj, hp⟩ | ⟨hno, e, hp⟩
  · refine ⟨[obj], by simp [hlog], ?_⟩
    intro last hle msgs
    rw [pushed, hp last hle]
    rfl
  · refine ⟨[], by simp [hno], ?_⟩
    intro last hle msgs
    rw [pushed, hp last hle]
    rfl

variable (parseJson) (info) in
/-- Starting from a greater value of the variable never pushes more. -/
theorem pushed_length_le {a b : Int} (hab : a ≤ b) (msgs : List Str) :
    (pushed parseJson info b msgs).length ≤ (pushed parseJson info a msgs).length := by
  induction msgs generalizing a b with
  | nil => exact Nat.le_refl _
  | cons msg msgs ih =>
      cases ht : integerT parseJson msg with
      | none =>
          rw [pushed_cons_of_no_t ht, pushed_cons_of_no_t ht]
          exact ih hab
      | some t =>
          obtain ⟨objs, _, hnewer⟩ := pushed_cons_of_newer info ht
          rcases lt_or_ge t a with hta | hta
          · rw [pushed_cons_of_older ht hta, pushed_cons_of_older ht (lt_of_lt_of_le hta hab)]
            exact ih hab
          · rcases lt_or_ge t b with htb | htb
            · rw [pushed_cons_of_older ht htb, hnewer a hta, List.length_append]
              exact Nat.le_trans (ih htb.le) (Nat.le_add_left _ _)
            · rw [hnewer a hta, hnewer b htb]

/-- No message of `msgs` that would be pushed after those before it, the
variable starting at `a`, has its timestamp below `b`. -/
def NoneBetween (parseJson : JsonParser) (info : Bool) (a b : Int) (msgs : List Str) : Prop :=
  ∀ pre msg post t, msgs = pre ++ msg :: post → integerT parseJson msg = some t →
    Loggable parseJson info msg → a ≤ t →
    (∀ m ∈ pre, ∀ t', integerT parseJson m = some t' → t' ≤ t) → b ≤ t

theorem noneBetween_cons {a b : Int} {msg : Str} {msgs : List Str} :
    NoneBetween parseJson info a b (msg :: msgs) ↔
      (∀ t, integerT parseJson msg = some t → Loggable parseJson info msg → a ≤ t → b ≤ t) ∧
        NoneBetween parseJson info (lastTimestamp parseJson info a [msg]) b msgs := by
  constructor
  · intro h
    refine ⟨?_, ?_⟩
    · intro t ht hlog hat
      exact h [] msg msgs t rfl ht hlog hat (fun _ hm => absurd hm List.not_mem_nil)
    · intro pre y post t hsplit ht hlog hle hpre
      obtain ⟨hat, hmsg⟩ := lastTimestamp_le_iff.mp hle
      refine h (msg :: pre) y post t (by rw [hsplit]; rfl) ht hlog hat ?_
      intro m hm
      rcases List.mem_cons.mp hm with rfl | hm
      · exact hmsg m List.mem_cons_self
      · exact hpre m hm
  · rintro ⟨hmsg, h⟩ pre y post t hsplit ht hlog hat hpre
    cases pre with
    | nil =>
        cases hsplit
        exact hmsg t ht hlog hat
    | cons x pre =>
        cases hsplit
        refine h pre y post t rfl ht hlog ?_ (fun m hm => hpre m (List.mem_cons_of_mem _ hm))
        refine lastTimestamp_le_iff.mpr ⟨hat, ?_⟩
        intro m hm
        rw [List.mem_singleton.mp hm]
        exact hpre msg List.mem_cons_self

/-- Two runs of the loop, one starting with the greater value, push the same
exactly when nothing falls between the two values. -/
theorem pushed_eq_iff {a b : Int} (hab : a ≤ b) (msgs : List Str) :
    pushed parseJson info b msgs = pushed parseJson info a msgs ↔
      NoneBetween parseJson info a b msgs := by
  induction msgs generalizing a b with
  | nil =>
      refine iff_of_true rfl ?_
      intro pre y post t hsplit
      exact absurd hsplit (by simp)
  | cons msg msgs ih =>
      have hlast : lastTimestamp parseJson info a [msg] =
          match integerT parseJson msg with
          | some t => max a t
          | none => a := parseIteration_fst a msg
      rw [noneBetween_cons, hlast]
      cases ht : integerT parseJson msg with
      | none =>
          rw [pushed_cons_of_no_t ht, pushed_cons_of_no_t ht, ih hab]
          simp
      | some t =>
          obtain ⟨objs, hobjs, hnewer⟩ := pushed_cons_of_newer info ht
          simp only [Option.some.injEq, forall_eq']
          rcases lt_or_ge t a with hta | hta
          · -- stale in both runs
            rw [pushed_cons_of_older ht hta, pushed_cons_of_older ht (lt_of_lt_of_le hta hab),
              max_eq_left hta.le, ih hab]
            exact ⟨fun h => ⟨fun _ hat => absurd hta (not_lt.mpr hat), h⟩, And.right⟩
          · rw [max_eq_right hta]
            rcases lt_or_ge t b with htb | htb
            · -- stale only in the run that started with the greater value
              rw [pushed_cons_of_older ht htb, hnewer a hta]
              by_cases hlog : Loggable parseJson info msg
              · refine iff_of_false ?_ ?_
                · intro heq
                  have hlen := congrArg List.length heq
                  have hle := pushed_length_le parseJson info htb.le msgs
                  have hpos := List.length_pos_iff.mpr (hobjs.mpr hlog)
                  rw [List.length_append] at hlen
                  omega
                · rintro ⟨hmsg, _⟩
                  exact absurd htb (not_lt.mpr (hmsg hlog hta))
              · have hnil : objs = [] := not_not.mp (mt hobjs.mp hlog)
                rw [hnil, List.nil_append, ih htb.le]
                exact ⟨fun h => ⟨fun h' => absurd h' hlog, h⟩, And.right⟩
            · -- in order in both runs, which agree from here on
              rw [hnewer a hta, hnewer b htb]
              refine iff_of_true rfl ⟨fun _ _ => htb, ?_⟩
              intro pre y post t' _ _ _ htt _
              exact le_trans htb htt

/-- No later message that would be pushed without `m` has its timestamp below
`m`'s. -/
def HarmlessRejection (parseJson : JsonParser) (xs : List Str) (m : Str) (ys : List Str) : Prop :=
  ∀ T, integerT parseJson m = some T → ∀ pre y post t, ys = pre ++ y :: post →
    integerT parseJson y = some t → Loggable parseJson true y → 0 ≤ t →
    (∀ m' ∈ xs ++ pre, ∀ t', integerT parseJson m' = some t' → t' ≤ t) → T ≤ t

/-- **Leaving out a rejected message leaves what is pushed the same exactly
when the rejection is harmless.** -/
theorem pushed_without_rejected_iff (parseJson : JsonParser) (xs : List Str) (m : Str)
    (ys : List Str)
    (hrej : ∃ e, (parseIteration parseJson true
      (lastTimestamp parseJson true 0 xs) m).2 = .rejected e) :
    pushed parseJson true 0 (xs ++ m :: ys) = pushed parseJson true 0 (xs ++ ys) ↔
      HarmlessRejection parseJson xs m ys := by
  rw [pushed_append, pushed_append, List.append_cancel_left_eq]
  obtain ⟨e, hrej⟩ := hrej
  cases hT : integerT parseJson m with
  | none =>
      rw [pushed_cons_of_no_t hT]
      refine iff_of_true rfl ?_
      intro T hT'
      rw [hT] at hT'
      cases hT'
  | some T =>
      have hle : lastTimestamp parseJson true 0 xs ≤ T := by
        rcases lt_or_ge T (lastTimestamp parseJson true 0 xs) with hlt | hge
        · rw [parseIteration_of_older hT hlt] at hrej
          cases hrej
        · exact hge
      have hskip : pushed parseJson true (lastTimestamp parseJson true 0 xs) (m :: ys) =
          pushed parseJson true T ys := by
        rcases parseIteration_of_newer true hT with ⟨_, obj, hp⟩ | ⟨_, e', hp⟩
        · rw [hp _ hle] at hrej
          cases hrej
        · rw [pushed, hp _ hle]
      rw [hskip, pushed_eq_iff hle]
      unfold NoneBetween HarmlessRejection
      constructor
      · intro h T' hT' pre y post t hsplit ht hlog h0 hpre
        obtain rfl : T = T' := Option.some.inj (hT.symm.trans hT')
        refine h pre y post t hsplit ht hlog ?_ ?_
        · exact lastTimestamp_le_iff.mpr
            ⟨h0, fun m' hm' => hpre m' (List.mem_append_left pre hm')⟩
        · exact fun m' hm' => hpre m' (List.mem_append_right xs hm')
      · intro h pre y post t hsplit ht hlog hle' hpre
        obtain ⟨h0, hxs⟩ := lastTimestamp_le_iff.mp hle'
        refine h T hT pre y post t hsplit ht hlog h0 ?_
        intro m' hm'
        rcases List.mem_append.mp hm' with hm' | hm'
        · exact hxs m' hm'
        · exact hpre m' hm'

/-- A message that is not JSON is harmless wherever it stands. -/
theorem pushed_without_rejected_bad_text :
    pushed feed true 0 ([ethTick] ++ "oops".toList :: [btcTick]) =
        pushed feed true 0 ([ethTick] ++ [btcTick]) ↔
      HarmlessRejection feed [ethTick] "oops".toList [btcTick] :=
  pushed_without_rejected_iff feed [ethTick] "oops".toList [btcTick] ⟨.badText, rfl⟩

/-- A rejected message with a large timestamp silences the datapoint after
it. -/
theorem rejected_silences_feed :
    (parseIteration feed true (lastTimestamp feed true 0 []) bareTimestamp).2 =
        .rejected .outOfRange ∧
      pushed feed true 0 ([] ++ bareTimestamp :: [btcTick]) ≠
        pushed feed true 0 ([] ++ [btcTick]) := by
  refine ⟨rfl, ?_⟩
  intro h
  exact absurd (congrArg List.length h) (by decide)

end SravzBackend.Redis
