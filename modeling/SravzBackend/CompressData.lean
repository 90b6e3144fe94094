/-
# `CompressData` — the gzip compression of `utils.cpp`

`CompressData` hands all its input to a gzip stream of zlib and collects what
comes out of it in rounds of 32 KiB.  How much of a round is new it works out as
the difference between the stream's running total and what it has collected, and
`Collected` is the invariant that makes this right: what is collected is what the
calls have written, in order.

What it hands over is `data.size()`, but to `avail_in`, which has 32 bits:
`roundTrips_iff` says which inputs come back when the result is decompressed.
-/
import SravzBackend.Lib.DoWhile
import SravzBackend.Lib.Zlib
import SravzBackend.Text
import Mathlib.Data.UInt

namespace SravzBackend.Compress

open Zlib

variable {σ : Type}

/-- The variables of the loop.  `outbuffer` keeps the bytes of earlier rounds. -/
structure State (σ : Type) where
  zs : Stream σ
  outbuffer : Bytes
  outstring : Bytes
  ret : Int

/-- The body of the loop. -/
def compressRound (z : Library σ) (s : State σ) : State σ :=
  let c := z.deflateInto s.zs 32768
  let outbuffer := c.written ++ s.outbuffer.drop c.written.length
  let outstring :=
    if s.outstring.length < c.zs.totalOut then
      s.outstring ++ outbuffer.take (c.zs.totalOut - s.outstring.length)
    else s.outstring
  ⟨c.zs, outbuffer, outstring, c.ret⟩

/-- The condition of the loop. -/
def State.pending (s : State σ) : Bool := s.ret == zOk

def init (z : Library σ) : Stream σ × Int :=
  z.deflateInit2 Stream.zeroed zBestCompression zDeflated ((15 ||| 16 : Nat) : Int) 8
    zDefaultStrategy

/-- `next_in` and `avail_in` are set; the latter is 32 bits wide. -/
def loaded (z : Library σ) (data : Bytes) : Stream σ :=
  { (init z).1 with nextIn := data, availIn := UInt32.ofNat data.length }

/-- Before the first round.  `ret` has no value yet in the source; the body sets it
before the condition reads it. -/
def State.before (z : Library σ) (data outbuffer : Bytes) : State σ :=
  ⟨loaded z data, outbuffer, [], zOk⟩

/-- `CompressData`, in at most `fuel` rounds, with `outbuffer` as the stack leaves
it.  An error is the text of the exception, or `none` where `zs.msg` is null and
appending it undefined.  `deflateEnd` only frees what the stream holds. -/
def compressData (z : Library σ) (outbuffer : Bytes) (fuel : Nat) (data : Bytes) :
    Option (Except (Option Str) Bytes) :=
  if (init z).2 ≠ zOk then
    some (.error (some "deflateInit2 failed while compressing.".toList))
  else
    (DoWhile.doWhile (compressRound z) State.pending fuel (.before z data outbuffer)).map fun s =>
      if s.ret ≠ zStreamEnd then
        .error (s.zs.msg.map fun msg =>
          "Exception during zlib compression: (".toList ++ lexicalCast s.ret ++ ") ".toList ++ msg)
      else .ok s.outstring

/-! ## The rounds -/

section Rounds

variable {z : Library σ} {gunzip : Bytes → Option Bytes} {zs : Stream σ} {s : State σ}

/-- What is collected is what the calls have written. -/
def Collected (z : Library σ) (zs : Stream σ) (s : State σ) : Prop :=
  Calls z zs ⟨s.zs, s.outstring, s.ret⟩

theorem pending_iff : s.pending = true ↔ s.ret = zOk := beq_iff_eq

/-- Where the total before the call is what is collected, the difference after it
is what the call has written. -/
theorem deflateInto_totalOut (hz : Documented z gunzip)
    (htotal : s.zs.totalOut = s.outstring.length) :
    (z.deflateInto s.zs 32768).zs.totalOut =
      s.outstring.length + (z.deflateInto s.zs 32768).written.length := by
  rw [← htotal]
  exact hz.totalOut _ _

/-- And that is at the front of the buffer. -/
theorem compressRound_outstring (hz : Documented z gunzip)
    (htotal : s.zs.totalOut = s.outstring.length) :
    (compressRound z s).outstring = s.outstring ++ (z.deflateInto s.zs 32768).written := by
  simp only [compressRound, deflateInto_totalOut hz htotal, Nat.add_sub_cancel_left, List.take_left]
  split
  · rfl
  · next hnone =>
      have hlength : (z.deflateInto s.zs 32768).written.length = 0 := by omega
      rw [List.eq_nil_of_length_eq_zero hlength, List.append_nil]

theorem Collected.round (hz : Documented z gunzip) (hready : Ready z zs) (h : Collected z zs s)
    (hret : s.ret = zOk) : Collected z zs (compressRound z s) := by
  refine Calls.finish h (by decide : (0 : UInt32) < 32768) (finish_eq_some_iff.mpr ⟨hret, ?_⟩)
  rw [compressRound_outstring hz (h.totalOut hz hready)]
  rfl

theorem invariant (hz : Documented z gunzip) (hready : Ready z zs) :
    DoWhile.Invariant (compressRound z) State.pending
      (fun s => Collected z zs s ∧ s.ret = zOk) (Collected z zs) where
  round h := h.1.round hz hready h.2
  next h hpending := ⟨h, pending_iff.mp hpending⟩

/-- The bytes a round appends are all in the buffer, which keeps its size. -/
theorem compressRound_within (hz : Documented z gunzip) (hready : Ready z zs)
    (h : Collected z zs s) (hbuffer : s.outbuffer.length = 32768) :
    (compressRound z s).zs.totalOut - s.outstring.length ≤ 32768 ∧
      (compressRound z s).outbuffer.length = 32768 := by
  have hwritten : (z.deflateInto s.zs 32768).written.length ≤ 32768 := hz.written_le _ _
  constructor
  · change (z.deflateInto s.zs 32768).zs.totalOut - s.outstring.length ≤ 32768
    rw [deflateInto_totalOut hz (h.totalOut hz hready), Nat.add_sub_cancel_left]
    exact hwritten
  · change ((z.deflateInto s.zs 32768).written ++
      s.outbuffer.drop (z.deflateInto s.zs 32768).written.length).length = 32768
    rw [List.length_append, List.length_drop]
    omega

/-- A round that is not the last fills the buffer. -/
theorem compressRound_fills (hz : Documented z gunzip) (hready : Ready z zs)
    (h : Collected z zs s) (hret : s.ret = zOk) (hpending : (compressRound z s).ret = zOk) :
    (compressRound z s).outstring.length = s.outstring.length + 32768 := by
  rw [compressRound_outstring hz (h.totalOut hz hready), List.length_append,
    hz.full hready h hret (by decide) hpending]
  rfl

end Rounds

/-! ## The loop -/

section Loop

variable {z : Library σ} {gunzip : Bytes → Option Bytes} {data outbuffer : Bytes}

theorem toNat_availIn : (loaded z data).availIn.toNat = data.length % 2 ^ 32 :=
  UInt32.toNat_ofNat'

theorem ready_loaded (hinit : (init z).2 = zOk) : Ready z (loaded z data) := by
  refine ⟨Stream.zeroed, (init z).1, zBestCompression, ((15 ||| 16 : Nat) : Int), 8,
    zDefaultStrategy, by decide, by decide, ?_, rfl, ?_⟩
  · exact Prod.ext rfl hinit
  · rw [toNat_availIn]
    exact Nat.mod_le _ _

theorem collected_before : Collected z (loaded z data) (.before z data outbuffer) := calls_start

/-- The loop is left with a whole stream. -/
theorem collected_loop (hz : Documented z gunzip) (hinit : (init z).2 = zOk) {fuel : Nat}
    {s : State σ}
    (h : DoWhile.doWhile (compressRound z) State.pending fuel (.before z data outbuffer) = some s) :
    Collected z (loaded z data) s ∧ s.ret = zStreamEnd := by
  have hready : Ready z (loaded z data) := ready_loaded hinit
  obtain ⟨hs, hdone⟩ := (invariant hz hready).spec ⟨collected_before, rfl⟩ h
  exact ⟨hs, (hz.returns hready hs).resolve_left (mt pending_iff.mpr hdone)⟩

/-- As many rounds as bytes that the stream can have, and one, are enough. -/
theorem exists_loop (hz : Documented z gunzip) (hinit : (init z).2 = zOk) (data outbuffer : Bytes) :
    ∃ enough, ∀ fuel, enough < fuel → ∃ s : State σ,
      DoWhile.doWhile (compressRound z) State.pending fuel (.before z data outbuffer) = some s := by
  have hready : Ready z (loaded z data) := ready_loaded hinit
  obtain ⟨most, hmost⟩ := hz.bound hready
  refine ⟨most, fun fuel hfuel => ?_⟩
  refine (invariant hz hready).exists_of_measure (m := fun s => most - s.outstring.length) ?_
    ⟨collected_before, rfl⟩ (Nat.lt_of_le_of_lt (Nat.sub_le _ _) hfuel)
  rintro s ⟨hs, hret⟩ hpending
  have hfills := compressRound_fills hz hready hs hret (pending_iff.mp hpending)
  have hle : (compressRound z s).outstring.length ≤ most := hmost _ (hs.round hz hready hret)
  omega

/-- The second exception is not thrown. -/
theorem compressData_eq (hz : Documented z gunzip) (hinit : (init z).2 = zOk) (fuel : Nat) :
    compressData z outbuffer fuel data =
      (DoWhile.doWhile (compressRound z) State.pending fuel (.before z data outbuffer)).map
        fun s => .ok s.outstring := by
  rw [compressData, if_neg (not_not_intro hinit)]
  cases hloop : DoWhile.doWhile (compressRound z) State.pending fuel (.before z data outbuffer) with
  | none => rfl
  | some s =>
      have hret := (collected_loop hz hinit hloop).2
      rw [Option.map_some, Option.map_some, if_neg (not_not_intro hret)]

/-- What is returned decompresses to as much of the input as `avail_in` counts. -/
theorem gunzip_of_compressData (hz : Documented z gunzip) (hinit : (init z).2 = zOk) {fuel : Nat}
    {result : Bytes} (h : compressData z outbuffer fuel data = some (.ok result)) :
    gunzip result = some (data.take (data.length % 2 ^ 32)) := by
  rw [compressData_eq hz hinit] at h
  obtain ⟨s, hloop, hs⟩ := Option.map_eq_some_iff.mp h
  cases hs
  obtain ⟨hcollected, hret⟩ := collected_loop hz hinit hloop
  have hwhole := hz.whole (ready_loaded hinit) hcollected hret
  rw [toNat_availIn] at hwhole
  exact hwhole

theorem compressData_returns (hz : Documented z gunzip) (hinit : (init z).2 = zOk)
    (data outbuffer : Bytes) :
    ∃ enough, ∀ fuel, enough < fuel →
      ∃ result, compressData z outbuffer fuel data = some (.ok result) := by
  obtain ⟨enough, henough⟩ := exists_loop hz hinit data outbuffer
  refine ⟨enough, fun fuel hfuel => ?_⟩
  obtain ⟨s, hs⟩ := henough fuel hfuel
  exact ⟨s.outstring, by rw [compressData_eq hz hinit, hs]; rfl⟩

/-- If `CompressData` returns, its result decompresses to the input. -/
def RoundTrips (z : Library σ) (gunzip : Bytes → Option Bytes) (data : Bytes) : Prop :=
  ∀ outbuffer fuel result, outbuffer.length = 32768 →
    compressData z outbuffer fuel data = some (.ok result) → gunzip result = some data

theorem RoundTrips.of_init_failed (hinit : (init z).2 ≠ zOk) : RoundTrips z gunzip data := by
  intro outbuffer fuel result _ h
  rw [compressData, if_pos hinit] at h
  cases h

theorem RoundTrips.of_short (hz : Documented z gunzip) (hshort : data.length < 2 ^ 32) :
    RoundTrips z gunzip data := by
  intro outbuffer fuel result hbuffer h
  by_cases hinit : (init z).2 = zOk
  · have hgunzip := gunzip_of_compressData hz hinit h
    rw [Nat.mod_eq_of_lt hshort, List.take_length] at hgunzip
    exact hgunzip
  · exact RoundTrips.of_init_failed hinit outbuffer fuel result hbuffer h

/-- Of an input that is too long a part comes back, and there is always a result. -/
theorem not_roundTrips_of_long (hz : Documented z gunzip) (hinit : (init z).2 = zOk)
    (hlong : 2 ^ 32 ≤ data.length) : ¬ RoundTrips z gunzip data := by
  intro hround
  obtain ⟨enough, henough⟩ := compressData_returns hz hinit data (List.replicate 32768 0)
  obtain ⟨result, hresult⟩ := henough (enough + 1) (Nat.lt_succ_self enough)
  have hall := hround _ _ result List.length_replicate hresult
  have hpart : data.take (data.length % 2 ^ 32) = data :=
    Option.some.inj ((gunzip_of_compressData hz hinit hresult).symm.trans hall)
  have hlength : data.length % 2 ^ 32 < 2 ^ 32 := Nat.mod_lt _ (by decide)
  have hle : data.length ≤ data.length % 2 ^ 32 := List.take_eq_self_iff _ |>.mp hpart
  omega

end Loop

/-- **What `CompressData` returns decompresses to its input exactly for the inputs
of less than `2 ^ 32` bytes** (where it returns at all: the stream can be set up). -/
theorem roundTrips_iff {z : Library σ} {gunzip : Bytes → Option Bytes} (hz : Documented z gunzip)
    (data : Bytes) : RoundTrips z gunzip data ↔ (init z).2 ≠ zOk ∨ data.length < 2 ^ 32 := by
  constructor
  · intro hround
    by_contra hno
    obtain ⟨hinit, hlong⟩ := not_or.mp hno
    exact not_roundTrips_of_long hz (not_not.mp hinit) (Nat.le_of_not_lt hlong) hround
  · rintro (hinit | hshort)
    · exact .of_init_failed hinit
    · exact .of_short hz hshort

/-! ## A library that stores

It writes what zlib does for an empty input and for one message; any other it
leaves as it is, behind the same header. -/

namespace Storing

/-- What is inside of `zs.state`: nothing has been written, or this is left. -/
inductive Stage where
  | fresh
  | left (rest : Bytes)

def header : Bytes := [0x1f, 0x8b, 8, 0, 0, 0, 0, 0, 2, 3]

/-- An empty block, and the checksum and the length of nothing. -/
def emptyBody : Bytes := [3, 0, 0, 0, 0, 0, 0, 0, 0, 0]

/-- `{"s":"ETH-USD"}` -/
def quote : Bytes := [123, 34, 115, 34, 58, 34, 69, 84, 72, 45, 85, 83, 68, 34, 125]

/-- A block with the fixed codes, and the checksum and the length of it. -/
def quoteBody : Bytes :=
  [171, 86, 42, 86, 178, 82, 114, 13, 241, 208, 13, 13, 118, 81, 170, 5, 0,
    80, 78, 73, 15, 15, 0, 0, 0]

def gzip (input : Bytes) : Bytes :=
  header ++
    if input = [] then emptyBody
    else if input = quote then quoteBody
    else 1 :: input

def gunzip (stream : Bytes) : Option Bytes :=
  if stream.take 10 = header then
    match stream.drop 10 with
    | 1 :: input => some input
    | body =>
        if body = emptyBody then some []
        else if body = quoteBody then some quote
        else none
  else none

def rest (zs : Stream Stage) : Bytes :=
  match zs.state with
  | none => []
  | some .fresh => gzip (zs.nextIn.take zs.availIn.toNat)
  | some (.left rest) => rest

def deflate (zs : Stream Stage) : Called Stage where
  zs := { zs with
    nextIn := zs.nextIn.drop zs.availIn.toNat
    availIn := 0
    totalOut := zs.totalOut + ((rest zs).take zs.availOut.toNat).length
    state := zs.state.map fun _ => .left ((rest zs).drop zs.availOut.toNat) }
  written := (rest zs).take zs.availOut.toNat
  ret :=
    if zs.state.isNone then zStreamError
    else if (rest zs).length ≤ zs.availOut.toNat then zStreamEnd
    else zOk

def library : Library Stage where
  deflateInit2 zs _ _ _ _ _ := ({ zs with totalOut := 0, msg := none, state := some .fresh }, zOk)
  deflate zs _ := deflate zs

theorem gunzip_gzip (input : Bytes) : gunzip (gzip input) = some input := by
  by_cases hempty : input = []
  · subst hempty
    rfl
  · by_cases hquote : input = quote
    · subst hquote
      rfl
    · rw [gzip, if_neg hempty, if_neg hquote]
      rfl

section Calls

variable {zs : Stream Stage} {c : Called Stage} {room : UInt32}

theorem deflateInto_written :
    (library.deflateInto zs room).written = (rest zs).take room.toNat := rfl

theorem rest_deflateInto (h : zs.state ≠ none) :
    (library.deflateInto zs room).zs.state ≠ none ∧
      rest (library.deflateInto zs room).zs = (rest zs).drop room.toNat := by
  obtain ⟨stage, hstage⟩ := Option.ne_none_iff_exists'.mp h
  have hnext : (library.deflateInto zs room).zs.state =
      some (.left ((rest zs).drop room.toNat)) := congrArg (Option.map _) hstage
  constructor
  · rw [hnext]
    exact Option.some_ne_none _
  · rw [rest, hnext]

theorem ret_deflateInto (h : zs.state ≠ none) :
    (library.deflateInto zs room).ret =
      if (rest zs).length ≤ room.toNat then zStreamEnd else zOk := by
  obtain ⟨stage, hstage⟩ := Option.ne_none_iff_exists'.mp h
  have hsome : ¬ zs.state.isNone = true := by
    rw [hstage]
    exact Bool.false_ne_true
  exact if_neg hsome

/-- What is written and what is left are the stream, and `Z_STREAM_END` says that
nothing is. -/
structure Halfway (input : Bytes) (c : Called Stage) : Prop where
  state : c.zs.state ≠ none
  stream : c.written ++ rest c.zs = gzip input
  ret : c.ret = zOk ∨ c.ret = zStreamEnd ∧ rest c.zs = []

theorem halfway (hready : Ready library zs) (h : Calls library zs c) :
    Halfway (zs.nextIn.take zs.availIn.toNat) c := by
  refine h.inv (P := Halfway (zs.nextIn.take zs.availIn.toNat)) ?_ ?_
  · obtain ⟨zs₀, zs₁, _, _, _, _, _, _, hinit, hzs, _⟩ := hready
    cases hinit
    rw [hzs]
    exact ⟨Option.some_ne_none _, rfl, .inl rfl⟩
  · intro c room c' hc _ hstep
    obtain ⟨_, rfl⟩ := finish_eq_some_iff.mp hstep
    obtain ⟨hstate, hrest⟩ := @rest_deflateInto c.zs room hc.state
    refine ⟨hstate, ?_, ?_⟩
    · calc (c.written ++ (library.deflateInto c.zs room).written) ++
            rest (library.deflateInto c.zs room).zs
          = c.written ++ ((rest c.zs).take room.toNat ++ (rest c.zs).drop room.toNat) := by
            rw [deflateInto_written, hrest, List.append_assoc]
        _ = gzip (zs.nextIn.take zs.availIn.toNat) := by rw [List.take_append_drop, hc.stream]
    · change (library.deflateInto c.zs room).ret = zOk ∨
        (library.deflateInto c.zs room).ret = zStreamEnd ∧
          rest (library.deflateInto c.zs room).zs = []
      rw [ret_deflateInto hc.state, hrest]
      by_cases hroom : (rest c.zs).length ≤ room.toNat
      · rw [if_pos hroom]
        exact .inr ⟨rfl, List.drop_eq_nil_of_le hroom⟩
      · rw [if_neg hroom]
        exact .inl rfl

theorem documented : Documented library gunzip where
  written_le _ _ := List.length_take_le _ _
  totalOut _ _ := rfl
  init_totalOut := by
    rintro zs ⟨zs₀, zs₁, _, _, _, _, _, _, hinit, hzs, _⟩
    cases hinit
    rw [hzs]
  full := by
    intro zs c room hready hcalls _ _ hret
    rw [ret_deflateInto (halfway hready hcalls).state] at hret
    split at hret
    · cases hret
    · next hroom =>
        rw [deflateInto_written, List.length_take]
        omega
  returns hready hcalls := (halfway hready hcalls).ret.imp id And.left
  bound := by
    intro zs hready
    refine ⟨(gzip (zs.nextIn.take zs.availIn.toNat)).length, fun c hcalls => ?_⟩
    rw [← (halfway hready hcalls).stream, List.length_append]
    exact Nat.le_add_right _ _
  whole := by
    intro zs c hready hcalls hret
    have hhalfway := halfway hready hcalls
    rcases hhalfway.ret with hok | ⟨_, hrest⟩
    · rw [hok] at hret
      cases hret
    · have hstream := hhalfway.stream
      rw [hrest, List.append_nil] at hstream
      rw [hstream, gunzip_gzip]

end Calls

end Storing

/-- A message becomes what zlib makes of it in one round, and comes back; so does an
empty input. -/
theorem roundTrips_quote :
    RoundTrips Storing.library Storing.gunzip Storing.quote ∧
      (∀ outbuffer, compressData Storing.library outbuffer 1 Storing.quote =
        some (.ok (Storing.header ++ Storing.quoteBody))) ∧
      RoundTrips Storing.library Storing.gunzip [] :=
  ⟨(roundTrips_iff Storing.documented Storing.quote).mpr (.inr (by decide)), fun _ => rfl,
    (roundTrips_iff Storing.documented []).mpr (.inr (by decide))⟩

/-- Of `2 ^ 32` zeros nothing comes back: `avail_in` is zero. -/
theorem zeros_do_not_roundTrip :
    ¬ RoundTrips Storing.library Storing.gunzip (List.replicate (2 ^ 32) 0) :=
  not_roundTrips_of_long Storing.documented rfl (Nat.le_of_eq List.length_replicate.symm)

end SravzBackend.Compress
