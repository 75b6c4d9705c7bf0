/- Module: T113Boot/Nand/Pieces
   layer: specification
   digest: The page pieces of a byte range, and the port's loops as runs over them. -/

import T113Boot.Nand.Port

set_option autoImplicit false
set_option relaxedAutoImplicit false

namespace T113Boot.Nand.Pieces

open T113Boot.Lib.Cells
open T113Boot.Nand.Chip
open T113Boot.Nand.Port

/-- The arguments of one call of `nand_page_read` or `nand_page_write`. -/
structure Piece where
  page : Nat
  offset : Nat
  data : Nat
  len : Nat
deriving DecidableEq

/-- The cut that both page loops of the port make. -/
def cutRange : Nat → Nat → Nat → Nat → Nat → List Piece
  | 0, _, _, _, _ => []
  | fuel + 1, page, offset, buf, size =>
    if size = 0 then []
    else if u32 (offset + size) > pageSize then
      ⟨page, offset, buf, pageSize - offset⟩ ::
        cutRange fuel (page + 1) 0 (u32 (buf + (pageSize - offset))) (size - (pageSize - offset))
    else [⟨page, offset, buf, size⟩]

/-- The pieces of a range. None is empty, so a fuel of its size outlives the cut. -/
def pieces (addr buf size : UInt32) : List Piece :=
  cutRange (size.toNat + 1) (addr.toNat / pageSize) (addr.toNat % pageSize) buf.toNat size.toNat

/-- A piece within the chip and within its page. -/
def Piece.Within (p : Piece) : Prop :=
  p.page < blocksTotal * pagesPerBlock ∧ p.offset + p.len ≤ pageSize

end T113Boot.Nand.Pieces
