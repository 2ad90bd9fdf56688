import Spigeon.Spec.UrlPrintf

/-!
# The text of a format

What `url_vsnprintf` would put with all the room in the world, as a function of the format and the
arguments alone. No buffer stands here: the loops lose their tests of the room, and every `_put` is a
character of the text. A fault ends the text.
-/

namespace Spigeon

open CInt Printf

/-- The variables of `_out_int_alt`: the characters that are out, `width`, and `tmp` with its last
character first. -/
structure IntText where
  out : List UInt8
  width : ℤ
  tmp : List UInt8

namespace IntText

def push (zero : Bool) (c : UInt8) (t : IntText) : IntText :=
  if zero ∧ t.width ≠ 0 then { t with out := t.out ++ [c], width := toInt (t.width - 1) }
  else { t with tmp := c :: t.tmp }

def pushSign (k : Conv) (hasneg negative : Bool) (t : IntText) : IntText :=
  if negative then t.push k.zero 45
  else if hasneg && k.plus then t.push k.zero 43
  else if hasneg && k.space then t.push k.zero 32
  else t

def pushHex (zero : Bool) (x : UInt8) (t : IntText) : IntText :=
  if zero ∧ t.width ≠ 0 then
    { t with
      out := t.out ++ [48, x]
      width := if t.width < 2 then 0 else t.width - 2 }
  else { t with tmp := 48 :: x :: t.tmp }

def pushAlt (k : Conv) (radix : Radix) (t : IntText) : IntText :=
  if k.alternate then
    match radix with
    | .octal => t.push k.zero 48
    | .decimal => t
    | .hex upper => t.pushHex k.zero (if upper then 88 else 120)
  else t

def pad (k : Conv) (t : IntText) : List UInt8 :=
  if !k.minus ∧ t.width ≠ 0 then
    List.replicate (t.width - t.tmp.length).toNat (if k.zero then 48 else 32)
  else []

/-- `width` after the characters of `tmp`. -/
def widthLeft : List UInt8 → ℤ → ℤ
  | [], width => width
  | _ :: tmp, width => widthLeft tmp (toInt (width - 1))

def finish (k : Conv) (t : IntText) : List UInt8 :=
  t.out ++ t.pad k ++ t.tmp ++ List.replicate (widthLeft t.tmp t.width).toNat 32

end IntText

def intText (type : CType) (hasneg : Bool) (radix : Radix) (k : Conv) (v : ℤ) : List UInt8 :=
  let val := type.wrap v
  let negative := decide (val < 0)
  let val := if val < 0 then type.wrap (-val) else val
  let t : IntText := ⟨[], k.width, intDigits radix val⟩
  ((t.pushSign k hasneg negative).pushAlt k radix).finish k

/-- As many characters as the precision allows. -/
def takePrecision : List UInt8 → ℤ → List UInt8
  | [], _ => []
  | c :: val, precision =>
    if precision = 0 then [] else c :: takePrecision val (toInt (precision - 1))

def textAsIs (k : Conv) (val : List UInt8) : List UInt8 :=
  if k.precision ≠ 0 then takePrecision val k.precision else val

def stringText (k : Conv) (val : List UInt8) : List UInt8 :=
  if k.width ≠ 0 ∧ !k.minus then
    let len : ℤ := min val.length k.width.toNat
    let len := if k.precision ≠ 0 ∧ len > k.precision then k.precision else len
    if len < k.width then
      List.replicate (toInt (k.width - len)).toNat 32 ++ val.take len.toNat
    else textAsIs k val
  else
    textAsIs k val ++
      if k.width ≠ 0 then List.replicate (toInt (k.width - (textAsIs k val).length)).toNat 32 else []

/-- The text of a conversion that ends with this character; none if it goes on. -/
def Conv.text (k : Conv) (args : List UrlArg) :
    ConvChar → Option (Except UrlFault (List UInt8 × List UrlArg))
  | .char =>
    match args with
    | .int v :: args => some (.ok ([UInt8.ofNat (v % 2 ^ 8).toNat], args))
    | _ => some (.error .argument)
  | .int hasneg radix =>
    match k.length.intType hasneg with
    | none => some (.ok ([], args))
    | some type =>
      match args with
      | .int v :: args => some (.ok (intText type hasneg radix k v, args))
      | _ => some (.error .argument)
  | .pointer =>
    match args with
    | .int v :: args => some (.ok (intText .unsignedLong false (.hex false) k v, args))
    | _ => some (.error .argument)
  | .double c =>
    match args with
    | .double chars :: args => some (.ok (chars k c, args))
    | _ => some (.error .argument)
  | .string =>
    match args with
    | .string val :: args => some (.ok (stringText k val, args))
    | _ => some (.error .argument)
  | .percent => some (.ok ([37], args))
  | _ => none

/-- The conversion after a character that does not end it. -/
def Conv.next (k : Conv) (args : List UrlArg) : ConvChar → Except UrlFault (Conv × List UrlArg)
  | .alternate => .ok (k.setFlag { k with alternate := true }, args)
  | .minus => .ok (k.setFlag { k with minus := true }, args)
  | .plus => .ok (k.setFlag { k with plus := true }, args)
  | .space => .ok (k.setFlag { k with space := true }, args)
  | .digit d => .ok (k.addDigit d, args)
  | .dot => .ok (k.setDot, args)
  | .star =>
    if k.state.code ≤ ConvState.precision.code then
      match args with
      | .int v :: args =>
        if k.state.code ≤ ConvState.width.code then .ok ({ k with width := toInt v }.setShort, args)
        else .ok ({ k with precision := toInt v, hasprecision := true }.setShort, args)
      | _ => .error .argument
    else .ok (k.setShort, args)
  | .h => .ok (k.setShort, args)
  | .l => .ok (k.setLong, args)
  | .j => .ok (k.setLength .j, args)
  | .z => .ok (k.setLength .z, args)
  | .t => .ok (k.setLength .t, args)
  | .L => .ok (k.setLength .D, args)
  | _ => .ok (k, args)

/-- A text, and the fault at its end. -/
structure FaultyText where
  text : List UInt8
  fault : Option UrlFault

def FaultyText.after (cs : List UInt8) (t : FaultyText) : FaultyText := ⟨cs ++ t.text, t.fault⟩

/-- The text of the rest of a format, in the outer loop or in a conversion. -/
def textFrom : List UInt8 → Option Conv → List UrlArg → FaultyText
  | [], none, _ => ⟨[], none⟩
  | [], some _, _ => ⟨[], some .format⟩
  | f :: fmt, none, args =>
    if f = 37 then textFrom fmt (some {}) args else (textFrom fmt none args).after [f]
  | c :: fmt, some k, args =>
    match k.text args (.of c) with
    | some (.error e) => ⟨[], some e⟩
    | some (.ok (cs, args)) => (textFrom fmt none args).after cs
    | none =>
      match k.next args (.of c) with
      | .error e => ⟨[], some e⟩
      | .ok (k, args) => textFrom fmt (some k) args

/-- The text of a format. -/
def formatText (fmt : List UInt8) (args : List UrlArg) : FaultyText := textFrom fmt none args

/-- The arguments match the format: each conversion finds one of its type. -/
def ArgsMatch (fmt : List UInt8) (args : List UrlArg) : Prop :=
  (formatText fmt args).fault ≠ some .argument

instance (fmt : List UInt8) (args : List UrlArg) : Decidable (ArgsMatch fmt args) :=
  inferInstanceAs (Decidable ((formatText fmt args).fault ≠ some .argument))

/-- The format ends outside of a conversion. -/
def Finished (fmt : List UInt8) (args : List UrlArg) : Prop :=
  (formatText fmt args).fault ≠ some .format

instance (fmt : List UInt8) (args : List UrlArg) : Decidable (Finished fmt args) :=
  inferInstanceAs (Decidable ((formatText fmt args).fault ≠ some .format))

end Spigeon
