import GarbageCollector.Model.BitVector

/-! # Headers and footers

The parts of `header.c`, `raw_layout.c` and `footer.c` that the allocators and the collector use,
and the readers `header_get_size`, `header_get_address` and `get_header_layout`. A header is a word whose
low two bits give its type; a footer is a tag word with a size byte on top, found by scanning forward from
inside an object.
-/

namespace GarbageCollector.Model

def getHeaderType (header : Word) : HeaderType :=
  let maskedData := maskFromMsb header 62
  if maskedData = 0 then .ptrToFormatString
  else if maskedData = 1 then .forwardingAddress
  else if maskedData = 2 then .rawLayout
  else if maskedData = 3 then .bitVector
  else .ptrToFormatString

/-- The size of a header that is the address of a format string. The string is the client's, so
`stringAt` says what it holds; `format_str_bytes` asserts that `create_format_str` accepted it. -/
def ptrToFormatStringGetSize (stringAt : Word → Except Fault (List Char)) (header : Word) :
    Except Fault ℕ := do
  let string ← stringAt header
  match ← createFormatStr string with
  | none => .error .assertion
  | some frmtStr => .ok (formatStrBytes frmtStr)

def rawLayoutGetSize (header : Word) : ℕ := (header >>> 2).toNat

def bitVectorGetSize (header : Word) : ℕ := (getSizeBitsField header).toNat

def headerGetSize (stringAt : Word → Except Fault (List Char)) (header : Word) : Except Fault ℕ :=
  match getHeaderType header with
  | .ptrToFormatString => ptrToFormatStringGetSize stringAt header
  | .forwardingAddress => .ok 0
  | .rawLayout => .ok (rawLayoutGetSize header)
  | .bitVector => .ok (bitVectorGetSize header)

def headerGetAddress (header : Word) : Word :=
  match getHeaderType header with
  | .ptrToFormatString => maskFromLsb header 2
  | .forwardingAddress => maskFromLsb header 2
  | .rawLayout => 0
  | .bitVector => 0

/-- The layout bits of a header. `to_bit_vector` dereferences the result of `create_format_str` at once, and
its `bit_vector` is 0 if it does not succeed. -/
def getHeaderLayout (stringAt : Word → Except Fault (List Char)) (header : Word) : Except Fault Word :=
  match getHeaderType header with
  | .ptrToFormatString => do
    let string ← stringAt header
    match ← createFormatStr string with
    | none => .error .outOfBounds
    | some frmtStr => .ok (getLayoutBitsField ((toBitVector frmtStr).getD 0))
  | .bitVector => .ok (getLayoutBitsField header)
  | .forwardingAddress => .ok 0
  | .rawLayout => .ok 0

/-- The forwarding word that `set_header_forward_address` leaves in a header. -/
def setHeaderForwardAddress (address : Word) : Word :=
  let forwardAddress := address &&& ~~~3#64
  forwardAddress ||| 1#64

/-- The header word of a raw block. -/
def createRawHeader (bytes : ℕ) : Word := (BitVec.ofNat 64 bytes <<< 2) ||| 2#64

/-- `FOOTER_IDENTIFIER`: the trailing `L` of the C literal is its suffix. -/
def footerIdentifier : Word := 0x00DEADBEEFCAFEBA

/-- The footer of an object; the argument is a `uint8_t`, so a size keeps its low 8 bits. -/
def createFooter (size : BitVec 8) : Word := (size.setWidth 64 <<< 56) ||| footerIdentifier

def confirmTag (tag : Word) : Bool := maskFromMsb tag 8 = footerIdentifier

end GarbageCollector.Model
