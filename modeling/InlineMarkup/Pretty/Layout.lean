import InlineMarkup.Pretty.Doc

/-!
Setting documents in lines of eighty-nine columns. A line that begins far to the right still has
sixty.
-/

set_option autoImplicit false

namespace InlineMarkup.Pretty

open InlineMarkup.Text

def margin : Int := 89

def leastSpace : Int := 60

/-- The width of the box that is open at the end of some parts, which are given last first. -/
def openWidth (depth : Nat) : List Part → Nat
  | [] => 0
  | .text s :: ps => byteLength s + openWidth depth ps
  | .gap g :: ps => g.blank + openWidth depth ps
  | .force :: ps => endless + openWidth depth ps
  | .shift _ :: ps => openWidth depth ps
  | .closing _ :: ps => openWidth (depth + 1) ps
  | .opening _ _ :: ps =>
    match depth with
    | 0 => 0
    | depth + 1 => openWidth depth ps

/-- Ends a box after parts that are given last first. A box with nothing but one gap vanishes. -/
def close : List Part → List Part
  | .gap _ :: .opening _ _ :: done => done
  | .gap g :: done =>
    if g.ifNonempty then .closing none :: done else .closing none :: .gap g :: done
  | done => .closing none :: done

def shiftLast (columns : Int) : List Part → List Part
  | .gap g :: done => .gap { g with offset := g.offset + columns } :: done
  | done => done

def settlePart (done : List Part) : Part → List Part
  | .shift columns => shiftLast columns done
  | .closing none => close done
  | .closing (some widest) =>
    if openWidth 0 done > widest then close (.force :: done) else close done
  | p => p :: done

/-- Carries out shifts, and leaves empty boxes and superfluous gaps out. -/
def settle (d : Doc) : Doc :=
  (d.foldl settlePart []).reverse

/-- Parts with the width up to the next gap of their own or an outer box. Beside them, that width
for each box that is open, innermost first. -/
def measure : Doc → List (Part × Nat) × List Nat
  | [] => ([], [0])
  | p :: ps =>
    let (rest, widths) := measure ps
    match p with
    | .text s => ((p, 0) :: rest, widths.map (· + byteLength s))
    | .force => ((p, 0) :: rest, widths.map (· + endless))
    | .shift _ => (rest, widths)
    | .gap g =>
      ((p, g.blank + widths.headD 0) :: rest, 0 :: widths.tail.map (· + g.blank))
    -- a box fits only with what follows it up to the next gap outside
    | .closing _ => ((p, 0) :: rest, widths.headD 0 :: widths)
    | .opening _ _ => ((p, widths.tail.headD 0) :: rest, widths.tail)

inductive Frame where
  | fits
  | broken (indent : Int) (consistent : Bool)

structure Page where
  written : List Char := []
  space : Int := margin
  pending : Nat := 0
  indent : Int := 0
  frames : List Frame := []

namespace Page

def write (p : Page) (s : List Char) : Page :=
  { p with
    written := s.reverse ++ (List.replicate p.pending ' ' ++ p.written)
    pending := 0
    space := p.space - byteLength s }

def writeSome (p : Page) (s : List Char) : Page :=
  if s.isEmpty then p else p.write s

def breakLine (p : Page) (g : Gap) : Page :=
  let p := p.writeSome g.before
  let column := p.indent + g.offset
  Page.writeSome
    { p with
      written := '\n' :: p.written
      pending := column.toNat
      space := max (margin - column) leastSpace }
    g.after

def keepLine (p : Page) (g : Gap) : Page :=
  { p with
    written := g.unbroken.reverse ++ p.written
    pending := p.pending + g.blank
    space := p.space - g.blank - byteLength g.unbroken }

def breaks (p : Page) (width : Nat) : Bool :=
  match p.frames with
  | .fits :: _ => false
  | .broken _ true :: _ => true
  | _ => p.space < width

def step (p : Page) : Part × Nat → Page
  | (.text s, _) => p.write s
  | (.force, _) => p
  | (.shift _, _) => p
  | (.gap g, width) => if !g.never && p.breaks width then p.breakLine g else p.keepLine g
  | (.opening offset consistent, width) =>
    if p.space < width then
      { p with
        frames := .broken p.indent consistent :: p.frames
        indent := p.indent + offset }
    else { p with frames := .fits :: p.frames }
  | (.closing _, _) =>
    match p.frames with
    | .broken indent _ :: frames => { p with frames, indent }
    | .fits :: frames => { p with frames }
    | [] => p

end Page

def Doc.render (d : Doc) : List Char :=
  ((measure (settle d)).1.foldl Page.step {}).written.reverse

end InlineMarkup.Pretty
