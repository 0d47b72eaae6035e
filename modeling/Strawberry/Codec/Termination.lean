import Strawberry.Codec.Bits
import Strawberry.Codec.Marshal

/-!
# Values that can be encoded

`Marshal` returns on a value if its parts, in order, are written up to one that is refused.
-/

namespace Strawberry.Jam

inductive EncodeError where
  | unsupportedType
  | unsupportedArrayType
  | mapFieldKeyType
  | enumValue
  | structField (field : String) (cause : EncodeError)

inductive Primitive where
  | bool (b : Bool)
  | int (x : Int64)
  | uint (x : UInt64)
  | fixed (w : Width) (x : w.Val)
  | signed (w : Width) (x : w.Val)

structure Field where
  name : String
  /-- The number of octets of the tag `length`. -/
  length : Option Nat

inductive Value where
  | prim (p : Primitive)
  /-- Of a type that is declared over a predeclared one. -/
  | named (p : Primitive)
  | bytes (b : List UInt8)
  | bits (b : List Bool)
  | publicKey (key : List UInt8)
  | nilPointer
  | pointer (v : Value)
  | struct (fields : List (Field × Value))
  | array (vs : List Value)
  | slice (vs : List Value)
  | map (entries : List (Value × Value))
  | enum (index : UInt8) (value : Option Value)
  | enumError
  | nilEnum
  | unsupported

def Primitive.toInt : Primitive → Int
  | bool b => if b then 1 else 0
  | int x => x.toInt
  | uint x => x.toNat
  | fixed w x => w.toNat x
  | signed w x => (w.toNat x : Int).bmod (256 ^ w.octets)

namespace Value

def isUint8 : Value → Bool
  | prim (.fixed .w8 _) | named (.fixed .w8 _) => true
  | _ => false

def sortKey : Value → List Int
  | prim p | named p => [p.toInt]
  | array vs => vs.flatMap fun
    | prim p | named p => [p.toInt]
    | _ => []
  | _ => []

def checkKey : Value → Except EncodeError Unit
  | prim _ | named _ => .ok ()
  | array vs => check (vs.all isUint8) .unsupportedArrayType
  | _ => .error .mapFieldKeyType

def sortMapKeys (entries : List (Value × Value)) : Except EncodeError (List (Value × Value)) := do
  entries.head?.forM fun e => checkKey e.1
  return entries.mergeSort fun a b => a.1.sortKey ≤ b.1.sortKey

def encodeWidth (length : Nat) : Value → Except EncodeError (List UInt8)
  | prim (.fixed w x) | named (.fixed w x) => .ok (toLE length (w.toNat x))
  | prim (.uint x) | named (.uint x) => .ok (toLE length x.toNat)
  | _ => .error .unsupportedType

def encodeFixedWidth (length : Nat) : Value → Except EncodeError (List UInt8)
  | nilPointer => .ok [0]
  | pointer v => (1 :: ·) <$> encodeWidth length v
  | v => encodeWidth length v

def encodeEach (marshal : Value → Call EncodeError (List UInt8)) :
    List Value → Call EncodeError (List UInt8)
  | [] => .ok []
  | v :: vs => do
    let head ← marshal v
    let tail ← encodeEach marshal vs
    return head ++ tail

def encodeField (marshal : Value → Call EncodeError (List UInt8)) (field : Field) (v : Value) :
    Call EncodeError (List UInt8) :=
  Call.mapError (.structField field.name) <|
    match field.length with
    | some length => Outcome.ret (encodeFixedWidth length v)
    | none => marshal v

def encodeStruct (marshal : Value → Call EncodeError (List UInt8)) :
    List (Field × Value) → Call EncodeError (List UInt8)
  | [] => .ok []
  | (field, v) :: fields => do
    let head ← encodeField marshal field v
    let tail ← encodeStruct marshal fields
    return head ++ tail

def marshalWithin : Nat → Value → Call EncodeError (List UInt8)
  | 0, _ => Outcome.hang
  | fuel + 1, v =>
    match v with
    | enum index none => .ok [index]
    | enum index (some value) => (index :: ·) <$> marshalWithin fuel value
    | enumError => .fail .enumValue
    | nilEnum => .crash .nilDereference
    | prim (.int x) => .ok (serializeUint64 x.toUInt64)
    | prim (.uint x) => .ok (serializeUint64 x)
    | prim (.fixed w x) => .ok (toLE w.octets (w.toNat x))
    | prim (.bool b) => .ok [if b then 1 else 0]
    | bytes b => .ok (encodeBytes b)
    | bits b => encodeBits b
    | prim (.signed w x) => marshalWithin fuel (prim (.signed w x))
    | named p => marshalWithin fuel (prim p)
    | nilPointer => .ok [0]
    | pointer v => (1 :: ·) <$> marshalWithin fuel v
    | publicKey key => .ok key
    | struct fields => encodeStruct (marshalWithin fuel) fields
    | array vs => encodeEach (marshalWithin fuel) vs
    | slice vs => (encodeLength vs.length ++ ·) <$> encodeEach (marshalWithin fuel) vs
    | map entries =>
      match sortMapKeys entries with
      | .error e => .fail e
      | .ok sorted => (encodeLength entries.length ++ ·) <$>
          encodeEach (marshalWithin fuel) (sorted.flatMap fun e => [e.1, e.2])
    | unsupported => .fail .unsupportedType

end Value

def Primitive.IsSigned : Primitive → Prop
  | signed _ _ => True
  | _ => False

open Value

def BitsFit (bits : List Bool) : Prop :=
  ∀ i, bits[i]? = some true → i / 8 < bitsLength bits.length

/-- A part of a composite value: a field with the tag `length` is written or refused at once, every
other part is handed to `marshal`. -/
inductive Part where
  | answered (ok : Bool)
  | value (v : Value)

def fieldPart (f : Field × Value) : Part :=
  match f.1.length with
  | none => .value f.2
  | some length => .answered (f.2.encodeFixedWidth length).isOk

/-- The parts of a composite value in the order in which they are encoded. -/
def Value.parts : Value → Option (List Part)
  | named p => some [.value (prim p)]
  | pointer v | enum _ (some v) => some [.value v]
  | struct fields => some (fields.map fieldPart)
  | array vs | slice vs => some (vs.map .value)
  | map entries =>
    match sortMapKeys entries with
    | .error _ => some [.answered false]
    | .ok sorted => some ((sorted.flatMap fun e => [e.1, e.2]).map .value)
  | _ => none

/-- `Ends p true`: all of `p` is written.  `Ends p false`: the first part that is not written is
refused with an error. -/
inductive Ends : Part → Bool → Prop
  | answered (ok : Bool) : Ends (.answered ok) ok
  | prim {p : Primitive} : ¬ p.IsSigned → Ends (.value (.prim p)) true
  | bytes (b : List UInt8) : Ends (.value (.bytes b)) true
  | bits {b : List Bool} : BitsFit b → Ends (.value (.bits b)) true
  | publicKey (key : List UInt8) : Ends (.value (.publicKey key)) true
  | nilPointer : Ends (.value .nilPointer) true
  | index (i : UInt8) : Ends (.value (.enum i none)) true
  | enumError : Ends (.value .enumError) false
  | unsupported : Ends (.value .unsupported) false
  | all {v : Value} {ps : List Part} : v.parts = some ps → (∀ p ∈ ps, Ends p true) →
      Ends (.value v) true
  | first {v : Value} {p : Part} {written rest : List Part} :
      v.parts = some (written ++ p :: rest) → (∀ q ∈ written, Ends q true) → Ends p false →
      Ends (.value v) false

section

variable {ε α : Type}

/-- Whether a call returns, and whether with a result. -/
def answer (x : Call ε α) : Outcome Bool := Outcome.bind x fun result => .ret result.isOk

def answerAll : List (Outcome Bool) → Outcome Bool
  | [] => .ret true
  | x :: xs => do if ← x then answerAll xs else return false

theorem answer_map {β : Type} (x : Call ε α) (g : α → β) : answer (g <$> x) = answer x := by
  cases x with
  | ret result =>
    cases result with
    | ok | error => rfl
  | crash | hang => rfl

theorem answer_mapError (x : Call ε α) (g : ε → ε) : answer (x.mapError g) = answer x := by
  cases x with
  | ret result =>
    cases result with
    | ok | error => rfl
  | crash | hang => rfl

theorem answer_append (x y : Call ε (List α)) :
    (answer do
      let head ← x
      let tail ← y
      return head ++ tail) = do if ← answer x then answer y else return false := by
  match x with
  | .ret (.ok a) => exact answer_map y (a ++ ·)
  | .ret (.error e) | .crash f | .hang => rfl

theorem answerAll_eq_true {xs : List (Outcome Bool)} :
    answerAll xs = .ret true ↔ ∀ x ∈ xs, x = .ret true := by
  induction xs with
  | nil => simp [answerAll]
  | cons x xs ih =>
    rw [List.forall_mem_cons, ← ih, answerAll, bind_eq_ret]
    constructor
    · rintro ⟨ok, rfl, h⟩
      cases ok with
      | true => exact ⟨rfl, h⟩
      | false => cases h
    · rintro ⟨rfl, h⟩
      exact ⟨true, rfl, h⟩

theorem answerAll_eq_false {xs : List (Outcome Bool)} :
    answerAll xs = .ret false ↔
      ∃ written rest, xs = written ++ .ret false :: rest ∧ ∀ x ∈ written, x = .ret true := by
  induction xs with
  | nil => simp [answerAll]
  | cons x xs ih =>
    rw [answerAll, bind_eq_ret]
    constructor
    · rintro ⟨ok, rfl, h⟩
      cases ok with
      | true =>
        obtain ⟨written, rest, rfl, hwritten⟩ := ih.mp h
        exact ⟨.ret true :: written, rest, rfl, List.forall_mem_cons.mpr ⟨rfl, hwritten⟩⟩
      | false => exact ⟨[], xs, rfl, nofun⟩
    · rintro ⟨_ | ⟨y, written⟩, rest, h, hwritten⟩
      · cases h
        exact ⟨false, rfl, rfl⟩
      · obtain ⟨rfl, rfl⟩ := List.cons.inj h
        rw [List.forall_mem_cons] at hwritten
        exact ⟨true, hwritten.1, ih.mpr ⟨written, rest, rfl, hwritten.2⟩⟩

end

theorem answer_encodeEach {marshal : Value → Call EncodeError (List UInt8)} (vs : List Value) :
    answer (encodeEach marshal vs) = answerAll (vs.map fun v => answer (marshal v)) := by
  induction vs with
  | nil => rfl
  | cons v vs ih => rw [encodeEach, answer_append, ih]; rfl

def answerOf (fuel : Nat) : Part → Outcome Bool
  | .answered ok => .ret ok
  | .value v => answer (v.marshalWithin fuel)

theorem answer_encodeField (fuel : Nat) (f : Field × Value) :
    answer (encodeField (marshalWithin fuel) f.1 f.2) = answerOf fuel (fieldPart f) := by
  rw [encodeField, answer_mapError, fieldPart]
  cases f.1.length with
  | none | some => rfl

theorem answer_encodeStruct (fuel : Nat) (fields : List (Field × Value)) :
    answer (Value.encodeStruct (marshalWithin fuel) fields) =
      answerAll ((fields.map fieldPart).map (answerOf fuel)) := by
  induction fields with
  | nil => rfl
  | cons f fields ih => rw [Value.encodeStruct, answer_append, answer_encodeField, ih]; rfl

theorem setBits_returns_iff {bits : List Bool} {i : Nat} {bb : List UInt8} :
    (setBits bits i bb).Returns ↔ ∀ j, bits[j]? = some true → (i + j) / 8 < bb.length := by
  induction bits generalizing i bb with
  | nil => exact iff_of_true ⟨bb, rfl⟩ nofun
  | cons b bits ih =>
    rw [← Nat.and_forall_add_one]
    simp only [List.getElem?_cons_zero, List.getElem?_cons_succ, Option.some.injEq, Nat.add_zero,
      ← Nat.add_assoc, Nat.add_right_comm i _ 1]
    cases b with
    | false =>
      change (setBits bits (i + 1) bb).Returns ↔ _
      rw [ih]
      simp
    | true =>
      by_cases hi : i / 8 < bb.length
      · have hset : setBits (true :: bits) i bb = setBits bits (i + 1)
            (bb.set (i / 8) (bb[i / 8] ||| 1 <<< UInt8.ofNat (i % 8))) := by
          rw [setBits, setBit, indexAt_of_lt hi]
          rfl
        rw [hset, ih, List.length_set]
        simp [hi]
      · refine iff_of_false ?_ fun h => hi (h.1 rfl)
        rintro ⟨bb', h⟩
        obtain ⟨bb₁, hset, -⟩ := bind_eq_ret.mp h
        obtain ⟨b, hb, -⟩ := bind_eq_ret.mp hset
        exact hi (indexAt_returns.mp ⟨b, hb⟩)

theorem encodeBits_returns_iff {bits : List Bool} : (encodeBits bits).Returns ↔ BitsFit bits := by
  have h := @setBits_returns_iff bits 0 (.replicate (bitsLength bits.length) 0)
  simp only [List.length_replicate, Nat.zero_add] at h
  unfold BitsFit
  rw [← h]
  constructor
  · rintro ⟨bytes, hbytes⟩
    obtain ⟨bb, hbb, -⟩ := bind_eq_ret.mp hbytes
    exact ⟨bb, hbb⟩
  · rintro ⟨bb, hbb⟩
    exact ⟨_, by rw [encodeBits, hbb, ret_bind]; rfl⟩

theorem answer_eq_ret {ε α : Type} {x : Call ε α} {ok : Bool} :
    answer x = .ret ok ↔ ∃ result, x = Outcome.ret result ∧ result.isOk = ok := by
  constructor
  · intro h
    obtain ⟨result, hx, hres⟩ := bind_eq_ret.mp h
    exact ⟨result, hx, Outcome.ret.inj hres⟩
  · rintro ⟨result, rfl, rfl⟩
    rfl

theorem answerAll_singleton (x : Outcome Bool) : answerAll [x] = x := by
  match x with
  | .ret true | .ret false | .crash f | .hang => rfl

def Settles (x : Nat → Outcome Bool) (ok : Bool) : Prop := ∃ n, ∀ fuel, n ≤ fuel → x fuel = .ret ok

theorem Settles.succ {x : Nat → Outcome Bool} {ok : Bool} (h : Settles (fun fuel => x (fuel + 1)) ok) :
    Settles x ok := by
  obtain ⟨n, hn⟩ := h
  refine ⟨n + 1, fun fuel hfuel => ?_⟩
  obtain ⟨k, rfl⟩ := Nat.exists_eq_add_of_le hfuel
  rw [Nat.add_right_comm]
  exact hn (n + k) (Nat.le_add_right n k)

theorem settles_ret (ok : Bool) : Settles (fun _ => .ret ok) ok := ⟨0, fun _ _ => rfl⟩

theorem settles_all {ps : List Part} (h : ∀ p ∈ ps, Settles (answerOf · p) true) :
    ∃ n, ∀ fuel, n ≤ fuel → ∀ x ∈ ps.map (answerOf fuel), x = .ret true := by
  induction ps with
  | nil => exact ⟨0, nofun⟩
  | cons p ps ih =>
    rw [List.forall_mem_cons] at h
    obtain ⟨n, hn⟩ := h.1
    obtain ⟨m, hm⟩ := ih h.2
    refine ⟨max n m, fun fuel hfuel => ?_⟩
    exact List.forall_mem_cons.mpr ⟨hn fuel (by omega), hm fuel (by omega)⟩

theorem answer_parts {v : Value} {ps : List Part} (h : v.parts = some ps) (fuel : Nat) :
    answer (v.marshalWithin (fuel + 1)) = answerAll (ps.map (answerOf fuel)) := by
  cases v with
  | named p =>
    cases h
    exact (answerAll_singleton _).symm
  | pointer w =>
    cases h
    exact (answer_map _ _).trans (answerAll_singleton _).symm
  | enum i value =>
    cases value with
    | none => cases h
    | some w =>
      cases h
      exact (answer_map _ _).trans (answerAll_singleton _).symm
  | struct fields =>
    cases h
    exact answer_encodeStruct fuel fields
  | array vs =>
    cases h
    rw [List.map_map]
    exact answer_encodeEach vs
  | slice vs =>
    cases h
    rw [List.map_map]
    exact (answer_map _ _).trans (answer_encodeEach vs)
  | map entries =>
    rw [parts] at h
    rw [marshalWithin]
    cases hsorted : sortMapKeys entries with
    | error e =>
      rw [hsorted] at h
      cases h
      rfl
    | ok sorted =>
      rw [hsorted] at h
      cases h
      rw [List.map_map]
      exact (answer_map _ _).trans (answer_encodeEach _)
  | prim | bytes | bits | publicKey | nilPointer | enumError | nilEnum | unsupported => cases h

theorem answer_encodeBits {b : List Bool} {ok : Bool} :
    answer (liftM (encodeBits b) : Call EncodeError (List UInt8)) = .ret ok ↔
      BitsFit b ∧ ok = true := by
  rw [← encodeBits_returns_iff]
  constructor
  · intro h
    obtain ⟨result, hlift, hok⟩ := answer_eq_ret.mp h
    obtain ⟨bytes, hbytes, hres⟩ := bind_eq_ret.mp hlift
    cases hres
    exact ⟨⟨bytes, hbytes⟩, hok.symm⟩
  · rintro ⟨⟨bytes, hbytes⟩, rfl⟩
    rw [hbytes]
    rfl

theorem Ends.settles {p : Part} {ok : Bool} (h : Ends p ok) : Settles (answerOf · p) ok := by
  induction h with
  | answered ok => exact settles_ret ok
  | @prim p hp =>
    refine .succ ?_
    cases p with
    | signed w x => exact absurd trivial hp
    | bool b | int x | uint x | fixed w x => exact settles_ret true
  | bits hb => exact .succ ⟨0, fun _ _ => answer_encodeBits.mpr ⟨hb, rfl⟩⟩
  | bytes | publicKey | nilPointer | index => exact .succ (settles_ret true)
  | enumError | unsupported => exact .succ (settles_ret false)
  | all hparts _ ih =>
    obtain ⟨n, hn⟩ := settles_all ih
    refine .succ ⟨n, fun fuel hfuel => (answer_parts hparts fuel).trans ?_⟩
    exact answerAll_eq_true.mpr (hn fuel hfuel)
  | @first v p written rest hparts _ _ ih hlast =>
    obtain ⟨n, hn⟩ := settles_all ih
    obtain ⟨m, hm⟩ := hlast
    refine .succ ⟨max n m, fun fuel hfuel => (answer_parts hparts fuel).trans ?_⟩
    have hp : answerOf fuel p = .ret false := hm fuel (by omega)
    refine answerAll_eq_false.mpr ⟨_, rest.map (answerOf fuel), ?_, hn fuel (by omega)⟩
    rw [List.map_append, List.map_cons, hp]

theorem ends_of_answer (fuel : Nat) (p : Part) (ok : Bool) (h : answerOf fuel p = .ret ok) :
    Ends p ok := by
  induction fuel generalizing p ok with
  | zero =>
    cases p with
    | answered =>
      cases h
      exact .answered _
    | value v => cases h
  | succ fuel ih =>
    cases p with
    | answered =>
      cases h
      exact .answered _
    | value v =>
      cases hparts : v.parts with
      | some ps =>
        have h := (answer_parts hparts fuel).symm.trans h
        cases ok with
        | true =>
          refine .all hparts fun p hp => ih p true ?_
          exact answerAll_eq_true.mp h _ (List.mem_map_of_mem hp)
        | false =>
          obtain ⟨_, _, hmap, hwritten⟩ := answerAll_eq_false.mp h
          obtain ⟨written, after, rfl, rfl, hafter⟩ := List.map_eq_append_iff.mp hmap
          obtain ⟨p, rest, rfl, hp, rfl⟩ := List.map_eq_cons_iff.mp hafter
          refine .first hparts (fun q hq => ih q true ?_) (ih p false hp)
          exact hwritten _ (List.mem_map_of_mem hq)
      | none =>
        cases v with
        | prim p =>
          cases p with
          | signed w x => exact ih _ _ h
          | bool b | int x | uint x | fixed w x =>
            cases h
            exact .prim id
        | bits b =>
          obtain ⟨hb, rfl⟩ := answer_encodeBits.mp h
          exact .bits hb
        | bytes | publicKey | nilPointer | enumError | unsupported =>
          cases h
          constructor
        | nilEnum => cases h
        | enum i value =>
          cases value with
          | none =>
            cases h
            exact .index i
          | some v => cases hparts
        | named | pointer | struct | array | slice => cases hparts
        | map entries =>
          rw [parts] at hparts
          split at hparts <;> cases hparts

/-- When bytes or an error come after finitely many calls. -/
theorem marshal_settles_iff (v : Value) :
    (∃ n, ∀ fuel, n ≤ fuel → (v.marshalWithin fuel).Returns) ↔ ∃ ok, Ends (.value v) ok := by
  constructor
  · rintro ⟨n, hn⟩
    obtain ⟨result, hres⟩ := hn n (Nat.le_refl n)
    exact ⟨_, ends_of_answer n (.value v) _ (answer_eq_ret.mpr ⟨result, hres, rfl⟩)⟩
  · rintro ⟨ok, h⟩
    obtain ⟨n, hn⟩ := h.settles
    refine ⟨n, fun fuel hfuel => ?_⟩
    obtain ⟨result, hres, -⟩ := answer_eq_ret.mp (hn fuel hfuel)
    exact ⟨result, hres⟩

theorem marshalWithin_signed (w : Width) (x : w.Val) (fuel : Nat) :
    Value.marshalWithin fuel (.prim (.signed w x)) = Outcome.hang := by
  induction fuel with
  | zero => rfl
  | succ fuel ih => exact ih

theorem int8_never_settles :
    (∀ fuel, (Value.prim (.signed .w8 (0 : UInt8))).marshalWithin fuel = Outcome.hang) ∧
      ∀ fuel, (Value.named (.signed .w8 (0 : UInt8))).marshalWithin fuel = Outcome.hang := by
  refine ⟨marshalWithin_signed .w8 (0 : UInt8), ?_⟩
  intro fuel
  cases fuel with
  | zero => rfl
  | succ fuel => exact marshalWithin_signed .w8 (0 : UInt8) fuel

end Strawberry.Jam
