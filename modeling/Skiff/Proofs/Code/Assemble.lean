import Skiff.Code.Fragment
import Skiff.Proofs.Code.Decode

/-!
# Assembled fragments

Every piece of a fragment stands at a place, the number of bytes before it. Assembling a fragment
whose operands fit writes each piece at its place, as an instruction that is read back as it was
written.
-/

namespace Skiff

open List

/-- The instruction that an item at a place becomes. -/
def CodeItem.placed (place : Nat) : CodeItem → Opcode × List Nat
  | instr op operands => (op, operands)
  | jump op distance => (op, [((place : Int) + distance).toNat])
  | exit _ => (.jump, [0])

theorem CodeItem.size_placed (place : Nat) (item : CodeItem) :
    (item.placed place).1.size = item.size := by
  cases item <;> rfl

theorem CodeItem.size_pos (item : CodeItem) : 0 < item.size := by
  rw [← size_placed 0 item]
  exact Opcode.size_pos _

namespace Opcode

theorem fitWidths_iff (widths operands : List Nat) :
    fitWidths widths operands = true ↔
      Forall₂ (fun width operand => operand < 256 ^ width) widths operands := by
  induction widths generalizing operands with
  | nil => cases operands <;> simp [fitWidths]
  | cons width widths ih =>
    cases operands with
    | nil => simp [fitWidths]
    | cons operand operands =>
      have same : 1 <<< (8 * width) = 256 ^ width := by
        rw [Nat.shiftLeft_eq, Nat.one_mul, Nat.pow_mul]
      rw [fitWidths, Bool.and_eq_true, decide_eq_true_iff, ih, same, List.forall₂_cons]

theorem fits_iff (op : Opcode) (operands : List Nat) : op.fits operands = true ↔ op.Fits operands :=
  fitWidths_iff _ _

end Opcode

variable {place : Nat}

theorem CodeItem.fits_placed {item : CodeItem} (fits : item.fits place = true) :
    (item.placed place).1.Fits (item.placed place).2 := by
  cases item with
  | instr op operands | jump op distance => exact (Opcode.fits_iff _ _).1 fits
  | exit kind => exact (Opcode.fits_iff .jump [0]).1 rfl

namespace Fragment

/-- The number of bytes of pieces. -/
def sizeOf (pieces : List CodePiece) : Nat := (pieces.map (·.item.size)).sum

@[simp] theorem sizeOf_nil : sizeOf [] = 0 := rfl

@[simp] theorem sizeOf_cons (piece : CodePiece) (pieces : List CodePiece) :
    sizeOf (piece :: pieces) = piece.item.size + sizeOf pieces := rfl

@[simp] theorem sizeOf_append (left right : List CodePiece) :
    sizeOf (left ++ right) = sizeOf left + sizeOf right := by
  simp [sizeOf]

theorem byteSize_eq (code : Fragment) : code.byteSize = sizeOf code.toList := by
  have general (pieces : List CodePiece) (size : Nat) :
      pieces.foldl (fun size piece => size + piece.item.size) size = size + sizeOf pieces := by
    induction pieces generalizing size with
    | nil => rfl
    | cons piece pieces ih => rw [foldl_cons, ih, sizeOf_cons, Nat.add_assoc]
  rw [byteSize, ← Array.foldl_toList, general, Nat.zero_add]

@[simp] theorem byteSize_append (left right : Fragment) :
    (left ++ right).byteSize = left.byteSize + right.byteSize := by
  simp [byteSize_eq]

@[simp] theorem byteSize_empty : byteSize #[] = 0 := rfl

@[simp] theorem byteSize_instr (span : Span) (op : Opcode) (operands : List Nat) :
    (instr span op operands).byteSize = op.size := by
  simp [byteSize_eq, instr, CodeItem.size]

@[simp] theorem byteSize_jump (span : Span) (op : Opcode) (distance : Int) :
    (jump span op distance).byteSize = op.size := by
  simp [byteSize_eq, jump, CodeItem.size]

/-! ## Pieces and their places -/

/-- Pieces with their places, from a place on. -/
def placesFrom : Nat → List CodePiece → List (Nat × CodePiece)
  | _, [] => []
  | place, piece :: rest => (place, piece) :: placesFrom (place + piece.item.size) rest

theorem placesFrom_append (place : Nat) (left right : List CodePiece) :
    placesFrom place (left ++ right)
      = placesFrom place left ++ placesFrom (place + sizeOf left) right := by
  induction left generalizing place with
  | nil => rfl
  | cons piece left ih => simp [placesFrom, ih, Nat.add_assoc]

theorem placesFrom_add (start place : Nat) (pieces : List CodePiece) :
    placesFrom (start + place) pieces
      = (placesFrom place pieces).map fun placed => (start + placed.1, placed.2) := by
  induction pieces generalizing place with
  | nil => rfl
  | cons piece pieces ih => simp [placesFrom, ← ih, Nat.add_assoc]

theorem inside_of_placesFrom {start : Nat} {pieces : List CodePiece} {piece : CodePiece}
    (member : (place, piece) ∈ placesFrom start pieces) :
    place + piece.item.size ≤ start + sizeOf pieces := by
  induction pieces generalizing start with
  | nil => cases member
  | cons first rest ih =>
    rw [sizeOf_cons]
    rcases mem_cons.1 member with here | later
    · obtain ⟨rfl, rfl⟩ := Prod.mk.inj here
      omega
    · have := ih later
      omega

/-- A piece of a fragment stands at a place. -/
def PieceAt (code : Fragment) (place : Nat) (piece : CodePiece) : Prop :=
  (place, piece) ∈ placesFrom 0 code.toList

variable {code left right : Fragment} {place : Nat} {piece : CodePiece}

theorem PieceAt.inside (here : PieceAt code place piece) :
    place + piece.item.size ≤ code.byteSize := by
  simpa [byteSize_eq] using inside_of_placesFrom here

theorem PieceAt.lt (here : PieceAt code place piece) : place < code.byteSize := by
  have inside := here.inside
  have positive := piece.item.size_pos
  omega

theorem pieceAt_append : PieceAt (left ++ right) place piece ↔
    PieceAt left place piece ∨ ∃ rest, PieceAt right rest piece ∧ left.byteSize + rest = place := by
  rw [PieceAt, Array.toList_append, placesFrom_append, Nat.zero_add, ← byteSize_eq,
    ← Nat.add_zero left.byteSize, placesFrom_add, mem_append, mem_map]
  apply or_congr Iff.rfl
  constructor
  · rintro ⟨⟨rest, _⟩, member, same⟩
    obtain ⟨rfl, rfl⟩ := Prod.mk.inj same
    exact ⟨rest, member, rfl⟩
  · rintro ⟨rest, member, rfl⟩
    exact ⟨(rest, piece), member, rfl⟩

@[simp] theorem not_pieceAt_empty : ¬PieceAt #[] place piece := not_mem_nil

@[simp] theorem pieceAt_singleton {only : CodePiece} :
    PieceAt #[only] place piece ↔ place = 0 ∧ piece = only := by
  simp [PieceAt, placesFrom]

/-! ## Exits -/

/-- Pieces from a place on, with exits made jumps. -/
def closeFrom (leave next : Nat) : Nat → List CodePiece → List CodePiece
  | _, [] => []
  | place, piece :: rest =>
    { piece with item := closeItem leave next place piece.item }
      :: closeFrom leave next (place + piece.item.size) rest

theorem size_closeItem (leave next place : Nat) (item : CodeItem) :
    (closeItem leave next place item).size = item.size := by
  cases item with
  | exit kind => cases kind <;> rfl
  | _ => rfl

theorem toList_closeExits (body : Fragment) (leave next : Nat) :
    (body.closeExits leave next).toList = closeFrom leave next 0 body.toList := by
  have general (pieces : List CodePiece) (closed : Fragment) (place : Nat) :
      (pieces.foldl (closePiece leave next) (closed, place)).1.toList
        = closed.toList ++ closeFrom leave next place pieces := by
    induction pieces generalizing closed place with
    | nil => simp [closeFrom]
    | cons piece pieces ih =>
      rw [foldl_cons, closePiece, ih, closeFrom]
      simp
  rw [closeExits, ← Array.foldl_toList, general]
  rfl

theorem placesFrom_closeFrom (leave next place : Nat) (pieces : List CodePiece) :
    placesFrom place (closeFrom leave next place pieces)
      = (placesFrom place pieces).map fun placed =>
        (placed.1, { placed.2 with item := closeItem leave next placed.1 placed.2.item }) := by
  induction pieces generalizing place with
  | nil => rfl
  | cons piece pieces ih => simp [placesFrom, closeFrom, size_closeItem, ih]

/-- The pieces of a loop body whose exits have been closed. -/
theorem pieceAt_closeExits {body : Fragment} {leave next : Nat} :
    PieceAt (body.closeExits leave next) place piece ↔
      ∃ open_, PieceAt body place open_ ∧
        piece = { open_ with item := closeItem leave next place open_.item } := by
  rw [PieceAt, toList_closeExits, placesFrom_closeFrom, mem_map]
  constructor
  · rintro ⟨⟨_, open_⟩, member, same⟩
    obtain ⟨rfl, rfl⟩ := Prod.mk.inj same
    exact ⟨open_, member, rfl⟩
  · rintro ⟨open_, member, rfl⟩
    exact ⟨(place, open_), member, rfl⟩

theorem byteSize_closeExits (body : Fragment) (leave next : Nat) :
    (body.closeExits leave next).byteSize = body.byteSize := by
  have general (pieces : List CodePiece) (place : Nat) :
      sizeOf (closeFrom leave next place pieces) = sizeOf pieces := by
    induction pieces generalizing place with
    | nil => rfl
    | cons piece pieces ih => simp [closeFrom, size_closeItem, ih]
  rw [byteSize_eq, byteSize_eq, toList_closeExits, general]

/-! ## Bytes -/

/-- The instructions that pieces from a place on become. -/
def placedFrom (place : Nat) (pieces : List CodePiece) : List (Opcode × List Nat) :=
  (placesFrom place pieces).map fun placed => placed.2.item.placed placed.1

theorem encodeItem_eq (place : Nat) (item : CodeItem) :
    encodeItem place item = (item.placed place).1.encode (item.placed place).2 := by
  cases item <;> rfl

/-- The operands of pieces from a place on fit. -/
theorem fits_iff (code : Fragment) :
    code.fits = true ↔ ∀ place piece, PieceAt code place piece → piece.item.fits place = true := by
  have general (pieces : List CodePiece) (fits : Bool) (place : Nat) :
      (pieces.foldl fitPiece (fits, place)).1 = true ↔ fits = true ∧
        ∀ placed ∈ placesFrom place pieces, placed.2.item.fits placed.1 = true := by
    induction pieces generalizing fits place with
    | nil => simp [placesFrom]
    | cons piece pieces ih =>
      rw [foldl_cons, fitPiece, ih, placesFrom, forall_mem_cons, Bool.and_eq_true, and_assoc]
  rw [fits, ← Array.foldl_toList, general]
  simp [PieceAt]

theorem toList_assemble (fits : code.fits = true) :
    code.assemble.1.data.toList = encodeAll (placedFrom 0 code.toList) := by
  have general (pieces : List CodePiece) (bytes : ByteArray) (map : SourceMap)
      (fit : ∀ placed ∈ placesFrom bytes.size pieces, placed.2.item.fits placed.1 = true) :
      (pieces.foldl assemblePiece (bytes, map)).1.data.toList
        = bytes.data.toList ++ encodeAll (placedFrom bytes.size pieces) := by
    induction pieces generalizing bytes map with
    | nil => simp [placedFrom, placesFrom, encodeAll]
    | cons piece pieces ih =>
      rw [placesFrom, forall_mem_cons] at fit
      have size : ((encodeItem bytes.size piece.item).foldl ByteArray.push bytes).size
          = bytes.size + piece.item.size := by
        rw [size_eq_length, toList_foldl_push, length_append, ← size_eq_length, encodeItem_eq,
          length_encode (CodeItem.fits_placed fit.1), CodeItem.size_placed]
      rw [foldl_cons, assemblePiece, ih _ _ (by rw [size]; exact fit.2), size,
        toList_foldl_push, placedFrom, placedFrom, placesFrom, map_cons, encodeAll_cons,
        encodeItem_eq, append_assoc]
  have fit := (fits_iff code).1 fits
  rw [assemble, ← Array.foldl_toList]
  exact general code.toList .empty {} fun placed member => fit placed.1 placed.2 member

theorem placeFrom_placedFrom (place : Nat) (pieces : List CodePiece) :
    placeFrom place (placedFrom place pieces)
      = (placesFrom place pieces).map fun placed =>
        ⟨placed.1, (placed.2.item.placed placed.1).1, (placed.2.item.placed placed.1).2⟩ := by
  induction pieces generalizing place with
  | nil => rfl
  | cons piece pieces ih =>
    have later := ih (place + piece.item.size)
    unfold placedFrom at later ⊢
    rw [placesFrom, map_cons, map_cons, placeFrom, CodeItem.size_placed, later]

/-- Assembling writes every piece at its place. -/
theorem spells_assemble (fits : code.fits = true) :
    Spells code.assemble.1 0 (placeFrom 0 (placedFrom 0 code.toList)) := by
  apply spells_encodeAll
  · intro instr member
    obtain ⟨⟨place, piece⟩, placed, rfl⟩ := mem_map.1 member
    exact CodeItem.fits_placed ((fits_iff code).1 fits place piece placed)
  · exact Nat.zero_le _
  · exact toList_assemble fits

theorem size_assemble (fits : code.fits = true) : code.assemble.1.size = code.byteSize := by
  have general (pieces : List CodePiece) (place : Nat) (fit : ∀ placed ∈ placesFrom place pieces,
      placed.2.item.fits placed.1 = true) :
      (encodeAll (placedFrom place pieces)).length = sizeOf pieces := by
    induction pieces generalizing place with
    | nil => rfl
    | cons piece pieces ih =>
      rw [placesFrom, forall_mem_cons] at fit
      rw [placedFrom, placesFrom, map_cons, encodeAll_cons, length_append,
        length_encode (CodeItem.fits_placed fit.1), CodeItem.size_placed, sizeOf_cons, ← ih _ fit.2]
      rfl
  rw [size_eq_length, toList_assemble fits, byteSize_eq]
  exact general _ _ fun placed member => (fits_iff code).1 fits _ _ member

/-- The instruction of an assembled piece. -/
def instrAt (place : Nat) (piece : CodePiece) : PlacedInstr :=
  ⟨place, (piece.item.placed place).1, (piece.item.placed place).2⟩

theorem mem_decode_assemble (fits : code.fits = true) {instr : PlacedInstr} :
    instr ∈ (decode code.assemble.1).toList ↔
      ∃ place piece, PieceAt code place piece ∧ instr = instrAt place piece := by
  rw [decode_of_spells (spells_assemble fits), placeFrom_placedFrom, mem_map]
  constructor
  · rintro ⟨⟨place, piece⟩, member, rfl⟩
    exact ⟨place, piece, member, rfl⟩
  · rintro ⟨place, piece, member, rfl⟩
    exact ⟨(place, piece), member, rfl⟩

theorem instrAt_mem (fits : code.fits = true) (here : PieceAt code place piece) :
    instrAt place piece ∈ (decode code.assemble.1).toList :=
  (mem_decode_assemble fits).2 ⟨place, piece, here, rfl⟩

end Fragment

end Skiff
