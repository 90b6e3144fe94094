/-
# `Lib.Zlib` — the stream interface of zlib, as its manual documents it

`deflateInit2` sets a `z_stream` up and `deflate` advances it.  What either does
inside is not modelled: a `Library` is any two functions of these types, and
`Documented` says what the manual promises of them to a caller who compresses
with `Z_FINISH` alone.

Such a caller makes one call after the other for as long as `Z_OK` is returned,
each with as much room for output as it likes.  `finish` is one of these calls,
so that the sequences of calls are the runs of `finish`, over the rooms given.
-/
import SravzBackend.Lib.Runs

namespace Zlib

/-- A byte string. -/
abbrev Bytes := List UInt8

/-- `z_stream`, as far as a caller reads or sets it: `next_in` is the memory from
that pointer on; `msg` and `state` are null where they are `none`.  `next_out`
is where a call writes (see `Called`). -/
structure Stream (σ : Type) where
  nextIn : Bytes
  availIn : UInt32
  availOut : UInt32
  totalOut : Nat
  msg : Option (List Char)
  state : Option σ

/-- `memset(&zs, 0, sizeof(zs))` -/
def Stream.zeroed {σ : Type} : Stream σ := ⟨[], 0, 0, 0, none, none⟩

def zOk : Int := 0
def zStreamEnd : Int := 1
def zStreamError : Int := -2
def zFinish : Int := 4
def zBestCompression : Int := 9
def zDeflated : Int := 8
def zDefaultStrategy : Int := 0

/-- What one or several calls of `deflate` leave: the stream, the bytes they
wrote, and what the last of them returned. -/
structure Called (σ : Type) where
  zs : Stream σ
  written : Bytes
  ret : Int

structure Library (σ : Type) where
  deflateInit2 : Stream σ → (level method windowBits memLevel strategy : Int) → Stream σ × Int
  deflate : Stream σ → (flush : Int) → Called σ

section Calls

variable {σ : Type} (z : Library σ)

/-- `deflate(&zs, Z_FINISH)` with `room` bytes at `next_out`. -/
def Library.deflateInto (zs : Stream σ) (room : UInt32) : Called σ :=
  z.deflate { zs with availOut := room } zFinish

/-- One more call, where the last one returned `Z_OK`. -/
def finish (c : Called σ) (room : UInt32) : Option (Called σ) :=
  if c.ret = zOk then
    let c' := z.deflateInto c.zs room
    some ⟨c'.zs, c.written ++ c'.written, c'.ret⟩
  else none

/-- Before the first call. -/
def start (zs : Stream σ) : Called σ := ⟨zs, [], zOk⟩

/-- A stream that `deflateInit2` has set up for a gzip stream, which is what 16
more than a size of the window asks for, and whose input has been set. -/
def Ready (zs : Stream σ) : Prop :=
  ∃ zs₀ zs₁ level windowBits memLevel strategy, 24 < windowBits ∧ windowBits ≤ 31 ∧
    z.deflateInit2 zs₀ level zDeflated windowBits memLevel strategy = (zs₁, zOk) ∧
    zs = { zs₁ with nextIn := zs.nextIn, availIn := zs.availIn } ∧
    zs.availIn.toNat ≤ zs.nextIn.length

/-- The sequences of calls with some room each. -/
def Calls (zs : Stream σ) (c : Called σ) : Prop :=
  ∃ rooms, (∀ room ∈ rooms, 0 < room) ∧ Runs.run (finish z) (start zs) rooms = some c

/-- What the manual says of `deflate`: `written_le` to `full` of a call, and the
rest of the calls that finish a stream.  `gunzip` is any decompressor for which
`whole` holds. -/
structure Documented (gunzip : Bytes → Option Bytes) : Prop where
  /-- A call writes no more than the room it has. -/
  written_le : ∀ zs flush, (z.deflate zs flush).written.length ≤ zs.availOut.toNat
  /-- `total_out` counts the bytes that are written. -/
  totalOut : ∀ zs flush,
    (z.deflate zs flush).zs.totalOut = zs.totalOut + (z.deflate zs flush).written.length
  init_totalOut : ∀ {zs}, Ready z zs → zs.totalOut = 0
  /-- `Z_OK` asks for more room: all there was is used. -/
  full : ∀ {zs c room}, Ready z zs → Calls z zs c → c.ret = zOk → 0 < room →
    (z.deflateInto c.zs room).ret = zOk → (z.deflateInto c.zs room).written.length = room.toNat
  returns : ∀ {zs c}, Ready z zs → Calls z zs c → c.ret = zOk ∨ c.ret = zStreamEnd
  /-- `deflateBound` -/
  bound : ∀ {zs}, Ready z zs → ∃ most, ∀ c, Calls z zs c → c.written.length ≤ most
  /-- The whole stream decompresses to the input. -/
  whole : ∀ {zs c}, Ready z zs → Calls z zs c → c.ret = zStreamEnd →
    gunzip c.written = some (zs.nextIn.take zs.availIn.toNat)

end Calls

/-! ## The calls that finish a stream -/

variable {σ : Type} {z : Library σ} {zs : Stream σ} {c c' : Called σ} {room : UInt32}

theorem finish_eq_some_iff :
    finish z c room = some c' ↔
      c.ret = zOk ∧ c' = ⟨(z.deflateInto c.zs room).zs, c.written ++ (z.deflateInto c.zs room).written,
        (z.deflateInto c.zs room).ret⟩ := by
  unfold finish
  by_cases hret : c.ret = zOk
  · rw [if_pos hret]
    exact ⟨fun h => ⟨hret, (Option.some.inj h).symm⟩, fun h => congrArg some h.2.symm⟩
  · rw [if_neg hret]
    exact ⟨nofun, fun h => absurd h.1 hret⟩

theorem calls_start : Calls z zs (start zs) := ⟨[], List.forall_mem_nil _, rfl⟩

theorem Calls.finish (h : Calls z zs c) (hroom : 0 < room) (hstep : Zlib.finish z c room = some c') :
    Calls z zs c' := by
  obtain ⟨rooms, hrooms, hrun⟩ := h
  refine ⟨rooms ++ [room], ?_, Runs.run_concat_eq_some.mpr ⟨c, hrun, hstep⟩⟩
  rw [List.forall_mem_append, List.forall_mem_singleton]
  exact ⟨hrooms, hroom⟩

/-- What holds before the first call, and is kept by each, holds after them. -/
theorem Calls.inv {P : Called σ → Prop} (hstart : P (start zs))
    (hstep : ∀ {c room c'}, P c → 0 < room → Zlib.finish z c room = some c' → P c')
    (h : Calls z zs c) : P c := by
  obtain ⟨rooms, hrooms, hrun⟩ := h
  exact Runs.run_inv hstep hstart hrooms hrun

/-- `total_out` is how much has been written. -/
theorem Calls.totalOut {gunzip : Bytes → Option Bytes} (hz : Documented z gunzip)
    (hready : Ready z zs) (h : Calls z zs c) : c.zs.totalOut = c.written.length := by
  refine h.inv (P := fun c => c.zs.totalOut = c.written.length) (hz.init_totalOut hready) ?_
  intro c room c' hc _ hstep
  obtain ⟨_, rfl⟩ := finish_eq_some_iff.mp hstep
  calc (z.deflateInto c.zs room).zs.totalOut
      = c.zs.totalOut + (z.deflateInto c.zs room).written.length := hz.totalOut _ _
    _ = (c.written ++ (z.deflateInto c.zs room).written).length := by rw [hc, List.length_append]

end Zlib
