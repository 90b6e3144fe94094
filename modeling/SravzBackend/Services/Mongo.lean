/-
# `Services.Mongo` — writes to the database, and searches

`MongoClient` takes JSON texts, makes BSON documents of them and hands a write
to the driver.  What cannot be parsed or made a document throws, as does the
driver when a write fails; an array that is none, or is empty, is answered
with a text, and so is a write the driver has no result for.

`Issues` says of a computation that it makes one given write or throws, and
comes with a rule for each way the client's functions are put together.

`find_all` writes what it has found as an array, and
`findAll_isArray_iff` says when it is one.
-/
import SravzBackend.Lib.Pieces
import SravzBackend.Services.World

namespace SravzBackend.Services

/-- What the driver says of a write: ids by index, and the count. -/
structure WriteResult where
  ids : List (Nat × Json)
  count : Int

/-- The parts of Boost and of the Mongo driver that the client uses: parsing
and printing JSON, `from_json` and `to_json`, `pool::acquire`, and what becomes
of a query and of a write.  A write without an acknowledgement has no result. -/
structure MongoDriver (β : Type) where
  parseJson : JsonParser
  what : JsonError → Str
  serialize : Json → Str
  fromJson : Str → Except Str β
  toJson : Json → Str
  acquire : Except Str Unit
  findOne : Str → Str → β → Except Str (Option Str)
  execute : MongoWrite β → Except Str (Option WriteResult)

namespace MongoClient

variable {β : Type} (d : MongoDriver β)

def getConnection : Call β Unit := Call.ofExcept id d.acquire

/-- A write that has not failed has reached the database.  One that throws is
taken to have changed nothing: the documents that an ordered `insert_many` has
written before the one it fails at are not kept count of. -/
def execute (write : MongoWrite β) : Call β (Option WriteResult) := do
  let r ← Call.ofExcept id (d.execute write)
  modify fun w => { w with mongo := w.mongo ++ [(write, r.isSome)] }
  return r

/-- The text of `{"result": {...}}`. -/
def resultJson (members : List (Str × Json)) : Str :=
  d.toJson (.object [("result".toList, .object members)])

def idsJson (r : WriteResult) : Json :=
  .object (r.ids.map fun (i, id) => (lexicalCast i, id))

/-- `MongoClient::insert_many` -/
def insertMany (database collectionName documentJson : Str) : Call β Str := do
  match ← Call.ofExcept d.what (d.parseJson documentJson) with
  | .array [] => return "Empty array".toList
  | .array (v :: vs) =>
      let documents ← Call.ofExcept id ((v :: vs).mapM fun v => d.fromJson (d.serialize v))
      getConnection d
      match ← execute d (.insertMany database collectionName documents) with
      | some r =>
          return resultJson d
            [("insertedIds".toList, idsJson r), ("insertedCount".toList, .int64 r.count)]
      | none => return "error".toList
  | _ => return "Not an array".toList

/-- `MongoClient::upsert` -/
def upsert (database collectionName searchJson updateJson : Str) (updateOne : Bool) :
    Call β Str := do
  getConnection d
  let search ← Call.ofExcept id (d.fromJson searchJson)
  let update ← Call.ofExcept id (d.fromJson updateJson)
  match ← execute d (.upsert database collectionName search update updateOne) with
  | some r =>
      return resultJson d
        [("upsertedIds".toList, idsJson r), ("insertedCount".toList, .int64 r.count)]
  | none => return "{}".toList

/-- `MongoClient::_delete` -/
def delete (database collectionName documentJson : Str) (deleteOne : Bool) : Call β Str := do
  getConnection d
  let document ← Call.ofExcept id (d.fromJson documentJson)
  let r ← execute d (.delete database collectionName document deleteOne)
  return resultJson d [("deletedCount".toList, .int64 (r.elim 0 WriteResult.count))]

/-- `MongoClient::find_one` -/
def findOne (database collectionName documentJson : Str) : Call β Str := do
  getConnection d
  let document ← Call.ofExcept id (d.fromJson documentJson)
  match ← Call.ofExcept id (d.findOne database collectionName document) with
  | some text => return text
  | none => return "{}".toList

/-! ## One write, or none -/

/-- The world in which the write has reached the database. -/
def wrote (w : World β) (write : MongoWrite β) (acknowledged : Bool) : World β :=
  { w with mongo := w.mongo ++ [(write, acknowledged)] }

/-- The computation throws and changes nothing. -/
def Throws {α : Type} (x : Call β α) : Prop :=
  ∀ w, ∃ what, Eff.run x w = (.error (.thrown what), w)

/-- The driver takes the write, and says `r` of it. -/
def Taken (write : MongoWrite β) (r : Option WriteResult) : Prop :=
  d.acquire = .ok () ∧ d.execute write = .ok r

/-- The computation makes the write and returns, with a value that satisfies
`Q`, if the driver takes the write; otherwise it throws.  With no write to
make, it throws. -/
def Issues {α : Type} (write : Option (MongoWrite β)) (Q : α → Prop) (x : Call β α) : Prop :=
  (Throws x ∧ ∀ wr, write = some wr → ∀ r, ¬ Taken d wr r) ∨
    ∃ wr r, write = some wr ∧ Taken d wr r ∧
      ∀ w, ∃ a, Q a ∧ Eff.run x w = (.ok a, wrote w wr r.isSome)

/-- The computation returns a value that satisfies `Q` and changes nothing. -/
def Returns {α : Type} (Q : α → Prop) (x : Call β α) : Prop :=
  ∀ w, ∃ a, Q a ∧ Eff.run x w = (.ok a, w)

theorem returns_pure {α : Type} {Q : α → Prop} {a : α} (h : Q a) :
    Returns Q (pure a : Call β α) :=
  fun _ => ⟨a, h, rfl⟩

section Rules

variable {d} {α γ ε : Type} {Q : α → Prop} {Q' : γ → Prop} {write : Option (MongoWrite β)}

/-- A computation that throws issues no write. -/
theorem Throws.issues {x : Call β α} (h : Throws x) : Issues d none Q x :=
  .inl ⟨h, fun _ hwrite => nomatch hwrite⟩

/-- A step that may throw comes first; what the write is depends on it. -/
theorem issues_ofExcept_bind {what : ε → Str} {r : Except ε γ} {f : γ → Call β α}
    {o : γ → Option (MongoWrite β)} (h : ∀ a, r = .ok a → Issues d (o a) Q (f a)) :
    Issues d (r.toOption.bind o) Q (Call.ofExcept what r >>= f) := by
  cases r with
  | error e =>
      refine Throws.issues fun w => ⟨what e, ?_⟩
      rw [Call.run_ofExcept_bind]
  | ok a => exact h a rfl

/-- Without a connection nothing is taken. -/
theorem issues_getConnection_bind {f : Unit → Call β α}
    (h : d.acquire = .ok () → Issues d write Q (f ())) :
    Issues d write Q (getConnection d >>= f) := by
  cases hacquire : d.acquire with
  | error what =>
      refine .inl ⟨fun w => ⟨what, ?_⟩, ?_⟩
      · rw [getConnection, Call.run_ofExcept_bind, hacquire]
        rfl
      · rintro wr _ r ⟨hok, _⟩
        rw [hacquire] at hok
        cases hok
  | ok u =>
      have hrun : getConnection d >>= f = f () := by
        rw [getConnection, hacquire]
        rfl
      rw [hrun]
      exact h hacquire

/-- The write itself, with nothing after it that throws. -/
theorem issues_execute_bind {wr : MongoWrite β} {f : Option WriteResult → Call β α}
    (hacquire : d.acquire = .ok ()) (hf : ∀ r, Returns Q (f r)) :
    Issues d (some wr) Q (execute d wr >>= f) := by
  cases hexecute : d.execute wr with
  | error what =>
      have hrun : ∀ w, Eff.run (execute d wr) w = (.error (.thrown what), w) := by
        intro w
        rw [execute, Call.run_ofExcept_bind, hexecute]
        rfl
      refine .inl ⟨fun w => ⟨what, Eff.run_bind_of_error (hrun w) f⟩, ?_⟩
      rintro wr' ⟨⟩ r ⟨_, hok⟩
      rw [hexecute] at hok
      cases hok
  | ok r =>
      have hrun : ∀ w, Eff.run (execute d wr) w = (.ok r, wrote w wr r.isSome) := by
        intro w
        rw [execute, Call.run_ofExcept_bind, hexecute]
        rfl
      refine .inr ⟨wr, r, rfl, ⟨hacquire, hexecute⟩, ?_⟩
      intro w
      rw [Eff.run_bind_of_ok (hrun w)]
      exact hf r _

/-- What comes after does not throw. -/
theorem Issues.bind {x : Call β γ} {f : γ → Call β α} (h : Issues d write Q' x)
    (hf : ∀ a, Returns Q (f a)) : Issues d write Q (x >>= f) := by
  rcases h with ⟨hthrows, hnot⟩ | ⟨wr, r, hwrite, htaken, hreturns⟩
  · refine .inl ⟨fun w => ?_, hnot⟩
    obtain ⟨what, hrun⟩ := hthrows w
    exact ⟨what, Eff.run_bind_of_error hrun f⟩
  · refine .inr ⟨wr, r, hwrite, htaken, fun w => ?_⟩
    obtain ⟨a, _, hrun⟩ := hreturns w
    rw [Eff.run_bind_of_ok hrun]
    exact hf a _

end Rules

/-! ## What the functions of the client issue -/

/-- The documents of the elements of an array, in order. -/
def documentsOf (vs : List Json) : Except Str (List β) :=
  vs.mapM fun v => d.fromJson (d.serialize v)

/-- An array with something in it. -/
def Insertable (json : Json) : Prop := ∃ v vs, json = .array (v :: vs)

theorem insertMany_issues {documentJson : Str} {v : Json} {vs : List Json}
    (h : d.parseJson documentJson = .ok (.array (v :: vs))) (database collectionName : Str) :
    Issues d ((documentsOf d (v :: vs)).toOption.map (.insertMany database collectionName))
      (fun _ => True) (insertMany d database collectionName documentJson) := by
  rw [insertMany, h, Option.map_eq_bind]
  refine issues_ofExcept_bind fun documents _ => ?_
  refine issues_getConnection_bind fun hacquire => ?_
  refine issues_execute_bind hacquire fun r => ?_
  cases r with
  | none => exact returns_pure trivial
  | some r => exact returns_pure trivial

/-- Anything but an array with something in it is answered with a text. -/
theorem insertMany_returns {documentJson : Str} {json : Json}
    (h : d.parseJson documentJson = .ok json) (hno : ¬ Insertable json)
    (database collectionName : Str) :
    Returns (fun _ => True) (insertMany d database collectionName documentJson) := by
  rw [insertMany, h]
  cases json with
  | array vs =>
      cases vs with
      | nil => exact returns_pure trivial
      | cons v vs => exact absurd ⟨v, vs, rfl⟩ hno
  | _ => exact returns_pure trivial

theorem upsert_issues (database collectionName searchJson updateJson : Str) (updateOne : Bool) :
    Issues d
      ((d.fromJson searchJson).toOption.bind fun search =>
        (d.fromJson updateJson).toOption.bind fun update =>
          some (.upsert database collectionName search update updateOne))
      (fun _ => True) (upsert d database collectionName searchJson updateJson updateOne) := by
  refine issues_getConnection_bind fun hacquire => ?_
  refine issues_ofExcept_bind fun search _ => ?_
  refine issues_ofExcept_bind fun update _ => ?_
  refine issues_execute_bind hacquire fun r => ?_
  cases r with
  | none => exact returns_pure trivial
  | some r => exact returns_pure trivial

theorem delete_issues (database collectionName documentJson : Str) (deleteOne : Bool) :
    Issues d
      ((d.fromJson documentJson).toOption.bind fun document =>
        some (.delete database collectionName document deleteOne))
      (fun _ => True) (delete d database collectionName documentJson deleteOne) := by
  refine issues_getConnection_bind fun hacquire => ?_
  refine issues_ofExcept_bind fun document _ => ?_
  exact issues_execute_bind hacquire fun r => returns_pure trivial

/-! ## The text of a search -/

/-- An `std::ostringstream`: its text, and where in it the next character goes. -/
structure OStringStream where
  text : Str
  put : Nat

namespace OStringStream

def empty : OStringStream := ⟨[], 0⟩

/-- `<<`, over what stands there. -/
def write (ss : OStringStream) (s : Str) : OStringStream where
  text := ss.text.take ss.put ++ s ++ ss.text.drop (ss.put + s.length)
  put := ss.put + s.length

/-- `seekp(-1, ss.cur)` -/
def seekBack (ss : OStringStream) : OStringStream := { ss with put := ss.put - 1 }

/-- The stream in which `text` has been written and nothing else. -/
def holding (text : Str) : OStringStream := ⟨text, text.length⟩

theorem write_holding (text s : Str) : (holding text).write s = holding (text ++ s) := by
  rw [write, holding, holding, List.take_length, List.drop_eq_nil_of_le (Nat.le_add_right _ _),
    List.append_nil, List.length_append]

theorem write_seekBack_holding (text : Str) (last c : Char) :
    (holding (text ++ [last])).seekBack.write [c] = holding (text ++ [c]) := by
  simp [write, seekBack, holding]

end OStringStream

/-- What the driver says of a search: the documents its cursor yields until its
end, and the relaxed JSON of one. -/
structure Cursor (β : Type) where
  find : Str → Str → β → Except Str (List β)
  toJson : β → Str

/-- The body of the loop of `find_all`. -/
def writeDocument (ss : OStringStream) (text : Str) : OStringStream :=
  (ss.write text).write ",".toList

/-- The loop over the documents, and what follows it; `found` is the flag. -/
def listDocuments (found : Bool) (texts : List Str) : Str :=
  let ss := OStringStream.empty.write "[".toList
  let ss := texts.foldl writeDocument ss
  let ss := if found then ss.seekBack else ss
  (ss.write "]".toList).text

/-- `MongoClient::find_all`.  The flag is never set. -/
def findAll (c : Cursor β) (database collectionName documentJson : Str) : Call β Str := do
  getConnection d
  let filter ← Call.ofExcept id (d.fromJson documentJson)
  let documents ← Call.ofExcept id (c.find database collectionName filter)
  return listDocuments false (documents.map c.toJson)

def arrayText (texts : List Str) : Str :=
  "[".toList ++ ",".toList.intercalate texts ++ "]".toList

/-- Every text is written with a comma behind it. -/
theorem foldl_writeDocument (texts : List Str) (text : Str) :
    texts.foldl writeDocument (.holding text) =
      .holding (text ++ (texts.map (· ++ [','])).flatten) := by
  induction texts generalizing text with
  | nil => simp
  | cons first rest ih =>
      rw [List.foldl_cons, writeDocument, OStringStream.write_holding, OStringStream.write_holding,
        ih, List.map_cons, List.flatten_cons]
      simp only [List.append_assoc]
      rfl

theorem listDocuments_false (texts : List Str) :
    listDocuments false texts =
      "[".toList ++ (texts.map (· ++ [','])).flatten ++ "]".toList := by
  have hloop := foldl_writeDocument texts "[".toList
  show ((texts.foldl writeDocument (.holding "[".toList)).write "]".toList).text = _
  rw [hloop, OStringStream.write_holding]
  rfl

/-- With the flag set by the loop, as it was meant to be, the bracket would
take the place of the last comma. -/
theorem listDocuments_found (texts : List Str) :
    listDocuments (!texts.isEmpty) texts = arrayText texts := by
  cases texts with
  | nil => rfl
  | cons first rest =>
      have hloop := foldl_writeDocument (first :: rest) "[".toList
      rw [Pieces.flatten_terminated ',' (List.cons_ne_nil first rest), ← List.append_assoc] at hloop
      show (((first :: rest).foldl writeDocument (.holding "[".toList)).seekBack.write
        "]".toList).text = _
      rw [hloop]
      exact congrArg OStringStream.text (OStringStream.write_seekBack_holding _ ',' ']')

theorem listDocuments_eq_iff (texts : List Str) :
    listDocuments false texts = arrayText texts ↔ texts = [] := by
  constructor
  · intro h
    by_contra hne
    -- the comma behind the last text is one character too many
    rw [listDocuments_false, Pieces.flatten_terminated ',' hne, arrayText] at h
    have hlength := congrArg List.length h
    simp only [List.length_append, List.length_singleton] at hlength
    change _ = 1 + ([','].intercalate texts).length + 1 at hlength
    change 1 + _ + 1 = _ at hlength
    omega
  · rintro rfl
    rfl

/-- The text is the array of the given texts, and reads as an array of as
many elements. -/
def IsArrayOf (texts : List Str) (text : Str) : Prop :=
  text = arrayText texts ∧ ∃ vs, d.parseJson text = .ok (.array vs) ∧ vs.length = texts.length

/-- **A search returns the array of what it has found exactly when it has found
nothing.** -/
theorem findAll_isArray_iff (c : Cursor β) (database collectionName documentJson : Str)
    (filter : β) (documents : List β) (hacquire : d.acquire = .ok ())
    (hfilter : d.fromJson documentJson = .ok filter)
    (hfind : c.find database collectionName filter = .ok documents)
    (hparse : d.parseJson "[]".toList = .ok (.array [])) :
    Returns (IsArrayOf d (documents.map c.toJson))
        (findAll d c database collectionName documentJson) ↔ documents = [] := by
  have hsearch : findAll d c database collectionName documentJson =
      pure (listDocuments false (documents.map c.toJson)) := by
    rw [findAll, getConnection, hacquire, hfilter]
    show (Call.ofExcept id (c.find database collectionName filter) >>= _) = _
    rw [hfind]
    rfl
  rw [hsearch]
  constructor
  · intro hreturns
    obtain ⟨text, ⟨htext, _⟩, hrun⟩ := hreturns World.empty
    cases hrun
    exact List.map_eq_nil_iff.mp ((listDocuments_eq_iff _).mp htext)
  · rintro rfl
    exact returns_pure ⟨rfl, [], hparse, rfl⟩

/-- A driver whose documents are their texts, and which finds the documents of
one collection. -/
def bookDriver : MongoDriver Str where
  parseJson := tableParser [("[]".toList, .array [])]
  what _ := []
  serialize _ := []
  fromJson text := .ok text
  toJson _ := []
  acquire := .ok ()
  findOne _ _ _ := .ok none
  execute _ := .ok none

def bookCursor (books : List Str) : Cursor Str where
  find _ collectionName _ := .ok (if collectionName = "books".toList then books else [])
  toJson text := text

theorem no_books_found :
    Returns (IsArrayOf bookDriver [])
      (findAll bookDriver (bookCursor ["\x7b\x7d".toList]) "sravz".toList "films".toList
        "\x7b\x7d".toList) :=
  (findAll_isArray_iff bookDriver (bookCursor ["\x7b\x7d".toList]) "sravz".toList "films".toList
    "\x7b\x7d".toList "\x7b\x7d".toList [] rfl rfl rfl rfl).mpr rfl

/-- One book is found, and a comma after it. -/
theorem one_book_found :
    (∀ w, Eff.run (findAll bookDriver (bookCursor ["\x7b\x7d".toList]) "sravz".toList
        "books".toList "\x7b\x7d".toList) w = (.ok "[\x7b\x7d,]".toList, w)) ∧
      ¬ Returns (IsArrayOf bookDriver ["\x7b\x7d".toList])
        (findAll bookDriver (bookCursor ["\x7b\x7d".toList]) "sravz".toList "books".toList
          "\x7b\x7d".toList) := by
  have hrun : ∀ w, Eff.run (findAll bookDriver (bookCursor ["\x7b\x7d".toList]) "sravz".toList
      "books".toList "\x7b\x7d".toList) w = (.ok "[\x7b\x7d,]".toList, w) := fun _ => rfl
  refine ⟨hrun, ?_⟩
  intro hreturns
  obtain ⟨text, ⟨htext, _⟩, htext'⟩ := hreturns World.empty
  rw [hrun] at htext'
  cases htext'
  exact absurd htext (by decide)

end MongoClient

end SravzBackend.Services
