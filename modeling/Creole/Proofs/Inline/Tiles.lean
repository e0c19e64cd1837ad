import Creole.Proofs.Inline.Offsets

/-!
# The tokens of a text tile it

A text is read inline token by token.  Done by offsets (`parseByOffset`), this takes slices of the
text for what the tokens hold, and for what the look-ahead compares.  All of these can be taken,
the reading ends, and it gives the nodes of the text (`tiled_and_parseByOffset`).

The tokens tile the text (`Tiled`): each begins where the one in front of it ends, the last one
ends where the text does, and so it is in what emphasis encloses.  In the part of the text that a
token covers, its content stands between what opens and what closes it (`Fits`, `Layout`).

## Strategy

`exists_tile` is the only lemma that looks into the scan of a token.  Both results are inductions
over what is left of the text, with the part that has been read in front of it: `tiled_append` on
its length, `nodesAt_append` on the steps.  What is inside emphasis is shorter than what is left,
so that the same induction covers it.
-/

namespace Creole.Inline

open List

/-! ## Reading by offsets -/

/-- A token with the bounds of its content. -/
structure Tile where
  token : Token
  bounds : Bounds

/-- Characters that are kept at an offset. -/
def Tile.kept (offset : Nat) (content : Text) : Tile := ⟨.literal content, .of offset [] content []⟩

/-- The token of emphasis that is marked at an offset.  There is none around nothing. -/
def spanTile? (emphasis : Style) (text : Text) (offset : Nat) : Sliced (Option Tile) := do
  let mark := (Mark.style emphasis).text
  let start := offset + mark.size
  match ← closingAt? mark text (text.size + 1) start with
  | some stop =>
    if start < stop then
      let content ← text.slice start stop
      return some ⟨.span emphasis content, ⟨start, stop, stop + mark.size⟩⟩
    else return none
  | none => return none

/-- The token for the text that a mark at an offset encloses, if it is valid there. -/
def Mark.enclosedTile? (page : PageRef) (mark : Mark) (text : Text) (offset : Nat) :
    Sliced (Option Tile) := do
  match ← mark.bounds? text offset with
  | some bounds =>
    let body ← text.slice bounds.start bounds.stop
    return (mark.token? page body).map (⟨·, bounds⟩)
  | none => return none

/-- The token that a mark at an offset begins, if its markup is complete. -/
def Mark.tile? (page : PageRef) (mark : Mark) (text : Text) (offset : Nat) :
    Sliced (Option Tile) :=
  match mark with
  | .lineBreak => return some ⟨.leaf .linebreak, .of offset mark.text [] []⟩
  | .style emphasis => spanTile? emphasis text offset
  | _ => mark.enclosedTile? page text offset

/-- The token at an offset. -/
def tileAt (page : PageRef) (text : Text) (offset : Nat) : Sliced Tile := do
  match ← urlSize? text offset with
  | some n =>
    let url ← text.slice offset (offset + n)
    return ⟨.leaf (.link (linkTo .link page url url)), .of offset [] url []⟩
  | none =>
    match ← codeBounds? text offset with
    | some (language, bounds) =>
      let code ← text.slice bounds.start bounds.stop
      return ⟨.leaf (.inlineCode code (some language)), bounds⟩
    | none =>
      let rest ← text.behind offset
      match Mark.of? rest with
      | some mark => return (← mark.tile? page text offset).getD (.kept offset mark.text)
      | none => return .kept offset [rest.head?.getD (Char.ofNat 0)]

/-- The nodes of a text from an offset on.  There are at most as many steps as given, in the text
and in what is inside emphasis. -/
def nodesAt (page : PageRef) : (steps : Nat) → (text : Text) → (offset : Nat) → Sliced (List Node)
  | 0, _, _ => throw .steps
  | steps + 1, text, offset =>
    if offset < text.size then do
      let tile ← tileAt page text offset
      match tile.token with
      | .literal content =>
        return (Node.text content).prepend (← nodesAt page steps text tile.bounds.next)
      | .leaf kind => return .leaf kind :: (← nodesAt page steps text tile.bounds.next)
      | .span style content =>
        let children ← nodesAt page steps content 0
        return .mk (.emphasis style) children :: (← nodesAt page steps text tile.bounds.next)
    else return []

/-- The nodes of a text, by a scan that goes by offsets. -/
def parseByOffset (page : PageRef) (text : Text) : Sliced (List Node) :=
  nodesAt page (text.size + 1) text 0

/-! ## Where a token is -/

/-- What a token is written as: its content, and what opens and what closes it. -/
inductive Layout (page : PageRef) : Token → (opening content closing : Text) → Prop
  | url {url : Text} :
      url ≠ [] → Layout page (.leaf (.link (linkTo .link page url url))) [] url []
  | code (language code : Text) :
      Layout page (.leaf (.inlineCode code (some language))) (codeStart language) code
        (codeEnd language)
  | char (c : Char) : Layout page (.literal [c]) [] [c] []
  /-- A mark that begins nothing. -/
  | mark (mark : Mark) : Layout page (.literal mark.text) [] mark.text []
  | lineBreak : Layout page (.leaf .linebreak) Mark.lineBreak.text [] []
  | span (style : Style) {content : Text} :
      content ≠ [] →
      Layout page (.span style content) (Mark.style style).text content (Mark.style style).text
  | enclosed {mark : Mark} {body : Text} {token : Token} :
      mark.token? page body = some token → Layout page token mark.text body mark.closing

/-- The same token is found in a text as at an offset, where what it is written as stands. -/
def Placed (page : PageRef) (front s : Text) (found : Token × Nat) (tile : Tile) : Prop :=
  ∃ token opening content closing rest, s = opening ++ (content ++ (closing ++ rest)) ∧
    Layout page token opening content closing ∧
    found = (token, opening.length + content.length + closing.length) ∧
    tile = ⟨token, .of front.size opening content closing⟩

variable {page : PageRef} {front rest : Text} {mark : Mark}

theorem slice_content (front opening content rest : Text) :
    (front ++ (opening ++ (content ++ rest))).slice (front.size + opening.size)
      (front.size + opening.size + content.size) = .ok content := by
  rw [← Text.size_append, ← append_assoc]
  exact Text.slice_append (front ++ opening) content rest

theorem spanTile?_append (page : PageRef) (emphasis : Style) (front rest : Text) :
    ∃ tile?, spanTile? emphasis (front ++ ((Mark.style emphasis).text ++ rest)) front.size =
        .ok tile? ∧
      Option.Rel (Placed page front ((Mark.style emphasis).text ++ rest))
        (spanToken? emphasis rest) tile? := by
  simp only [spanTile?, closingAt?_behind_mark, Sliced.ok_bind, spanToken?]
  cases hclosing : closing? (Mark.style emphasis).text (Mark.style emphasis).text.getLast? rest with
  | none => exact ⟨none, rfl, .none⟩
  | some n =>
      cases n with
      | zero => exact ⟨none, by simp, .none⟩
      | succ n =>
          obtain ⟨content, hcontent⟩ : ∃ content, rest.take (n + 1) = content := ⟨_, rfl⟩
          obtain ⟨more, hmore⟩ := Text.opens_iff.mp (opens_of_closing? hclosing)
          have hrest : rest = content ++ ((Mark.style emphasis).text ++ more) := by
            rw [← hmore, ← hcontent, take_append_drop]
          have hlength : content.length = n + 1 := by
            have hbehind := congrArg length hmore
            have hmark := (Mark.style emphasis).one_le_length_text
            rw [length_drop, length_append] at hbehind
            rw [← hcontent, length_take_of_le (by omega)]
          have hne : content ≠ [] := by
            rintro rfl
            cases hlength
          have hpos := Text.size_pos hne
          have hslice := slice_content front (Mark.style emphasis).text content
            ((Mark.style emphasis).text ++ more)
          rw [← hrest] at hslice
          simp only [Option.map_some, hcontent, Text.size_append, Nat.lt_add_right_iff_pos, hpos,
            if_true, hslice, Sliced.ok_bind]
          refine ⟨_, rfl, .some ⟨_, _, _, _, more, congrArg _ hrest, .span emphasis hne, ?_, rfl⟩⟩
          rw [hlength, Prod.mk.injEq]
          exact ⟨rfl, by omega⟩

theorem enclosedTile?_append (page : PageRef) (mark : Mark) (front rest : Text) :
    ∃ tile?, mark.enclosedTile? page (front ++ (mark.text ++ rest)) front.size = .ok tile? ∧
      Option.Rel (Placed page front (mark.text ++ rest))
        ((mark.body? rest).bind fun body => (mark.token? page body).map (·, mark.reach body))
        tile? := by
  simp only [Mark.enclosedTile?, bounds?_append, Sliced.ok_bind]
  cases hbody : mark.body? rest with
  | none => exact ⟨none, rfl, .none⟩
  | some body =>
      obtain ⟨more, hmore⟩ := prefix_of_body? hbody
      rw [append_assoc] at hmore
      have hslice := slice_content front mark.text body (mark.closing ++ more)
      rw [hmore] at hslice
      simp only [Option.map_some, Option.bind_some, Bounds.of, hslice, Sliced.ok_bind]
      cases htoken : mark.token? page body with
      | none => exact ⟨none, rfl, .none⟩
      | some token =>
          have hshape := congrArg (mark.text ++ ·) hmore.symm
          exact ⟨_, rfl, .some ⟨_, _, _, _, more, hshape, .enclosed htoken, rfl, rfl⟩⟩

theorem scan?_eq_bind (hlineBreak : mark ≠ .lineBreak) (hstyle : ∀ style, mark ≠ .style style) :
    mark.scan? page rest =
      (mark.body? rest).bind fun body => (mark.token? page body).map (·, mark.reach body) := by
  cases mark with
  | lineBreak => exact absurd rfl hlineBreak
  | style style => exact absurd rfl (hstyle style)
  | _ =>
      simp only [Mark.scan?]
      cases Mark.body? _ rest <;> rfl

theorem tile?_append (page : PageRef) (mark : Mark) (front rest : Text) :
    ∃ tile?, mark.tile? page (front ++ (mark.text ++ rest)) front.size = .ok tile? ∧
      Option.Rel (Placed page front (mark.text ++ rest)) (mark.scan? page rest) tile? := by
  have henclosed := enclosedTile?_append page mark front rest
  cases mark with
  | lineBreak => exact ⟨_, rfl, .some ⟨_, _, [], [], rest, rfl, .lineBreak, rfl, rfl⟩⟩
  | style emphasis => exact spanTile?_append page emphasis front rest
  | _ =>
      rw [scan?_eq_bind (by simp) (by simp)]
      exact henclosed

theorem tileAt_append (page : PageRef) (front : Text) (c : Char) (cs : Text) :
    ∃ tile, tileAt page (front ++ c :: cs) front.size = .ok tile ∧
      Placed page front (c :: cs) (scan page front.getLast? c cs) tile := by
  simp only [tileAt, urlSize?_append, codeBounds?_append, Text.behind_append, Sliced.ok_bind, scan]
  cases hurl : rawUrl? front.getLast? (c :: cs) with
  | some url =>
      obtain ⟨rest, hrest⟩ := isPrefix_of_rawUrl? hurl
      have hslice := Text.slice_append front url rest
      rw [hrest] at hslice
      simp only [Option.map_some, hslice, Sliced.ok_bind]
      refine ⟨_, rfl, _, [], url, [], rest, hrest.symm, .url (ne_nil_of_rawUrl? hurl), ?_, rfl⟩
      simp
  | none =>
      cases hcode : codeSpan? (c :: cs) with
      | some parts =>
          obtain ⟨language, code⟩ := parts
          obtain ⟨rest, hrest⟩ := eq_of_codeSpan? hcode
          rw [append_assoc, ← codeStart] at hrest
          have hslice := slice_content front (codeStart language) code (codeEnd language ++ rest)
          rw [← hrest] at hslice
          simp only [Option.map_none, Option.map_some, Bounds.of, hslice, Sliced.ok_bind,
            codeLength_eq]
          exact ⟨_, rfl, _, _, _, _, rest, hrest, .code language code, rfl, rfl⟩
      | none =>
          cases hmark : Mark.of? (c :: cs) with
          | none =>
              exact ⟨_, rfl, _, [], [c], [], cs, rfl, .char c, rfl, rfl⟩
          | some mark =>
              obtain ⟨rest, hrest⟩ := eq_of_of? hmark
              obtain ⟨tile?, htile, hplaced⟩ := tile?_append page mark front rest
              simp only [hrest, htile, Option.map_none, Sliced.ok_bind, drop_left]
              generalize mark.scan? page rest = found at hplaced ⊢
              cases hplaced with
              | none => exact ⟨_, rfl, _, [], mark.text, [], rest, rfl, .mark mark, by simp, rfl⟩
              | some h => exact ⟨_, rfl, h⟩

/-! ## Tilings -/

/-- A tile is a part of a text that begins at an offset: what opens the token, its content and what
closes it stand in the text one behind the other. -/
structure Fits (page : PageRef) (text : Text) (offset : Nat) (tile : Tile) : Prop where
  forward : offset < tile.bounds.next
  within : tile.bounds.next ≤ text.size
  parts : ∃ opening content closing, Layout page tile.token opening content closing ∧
    text.slice offset tile.bounds.start = .ok opening ∧
    text.slice tile.bounds.start tile.bounds.stop = .ok content ∧
    text.slice tile.bounds.stop tile.bounds.next = .ok closing
  shorter : ∀ style content, tile.token = .span style content → content.size < text.size

/-- From an offset on, tokens stand one behind the other up to the end of the text, and so they do
in what is inside emphasis. -/
inductive Tiled (page : PageRef) : (text : Text) → (offset : Nat) → Prop
  | done (text : Text) : Tiled page text text.size
  | tile {text : Text} {offset : Nat} {tile : Tile} :
      tileAt page text offset = .ok tile → Fits page text offset tile →
      (∀ style content, tile.token = .span style content → Tiled page content 0) →
      Tiled page text tile.bounds.next → Tiled page text offset

theorem Layout.of_span {style : Style} {inside opening content closing : Text}
    (h : Layout page (.span style inside) opening content closing) :
    content = inside ∧ opening = (Mark.style style).text := by
  generalize htoken : Token.span style inside = token at h
  cases h with
  | span => cases htoken; exact ⟨rfl, rfl⟩
  | enclosed hbody =>
      subst htoken
      rcases eq_of_token? hbody with ⟨-, heq⟩ | heq | ⟨kind, heq, -⟩ <;> cases heq
  | _ => cases htoken

theorem Placed.fits {s : Text} {token : Token} {n : Nat} {tile : Tile}
    (h : Placed page front s (token, n) tile) (hpos : 1 ≤ n) :
    Fits page (front ++ s) front.size tile := by
  obtain ⟨token, opening, content, closing, rest, rfl, hlayout, hfound, rfl⟩ := h
  obtain ⟨rfl, rfl⟩ := Prod.mk.inj hfound
  have hopening := Text.length_le_size opening
  have hcontent := Text.length_le_size content
  have hclosing := Text.length_le_size closing
  refine ⟨?_, ?_, ⟨opening, content, closing, hlayout, ?_, ?_, ?_⟩, ?_⟩
  · simp only [Bounds.of]
    omega
  · simp only [Bounds.of, Text.size_append]
    omega
  · exact Text.slice_append front opening _
  · exact slice_content front opening content _
  · have hslice := slice_content front (opening ++ content) closing rest
    simpa only [Bounds.of, Text.size_append, append_assoc, ← Nat.add_assoc] using hslice
  · rintro style inside rfl
    obtain ⟨rfl, rfl⟩ := hlayout.of_span
    have hmark := (Mark.style style).one_le_length_text
    simp only [Text.size_append]
    omega

theorem Placed.next {s : Text} {token : Token} {n : Nat} {tile : Tile}
    (h : Placed page front s (token, n) tile) :
    tile.token = token ∧ n ≤ s.length ∧ tile.bounds.next = Text.size (front ++ s.take n) := by
  obtain ⟨token, opening, content, closing, rest, rfl, -, hfound, rfl⟩ := h
  obtain ⟨rfl, rfl⟩ := Prod.mk.inj hfound
  have htake : (opening ++ (content ++ (closing ++ rest))).take
      (opening.length + content.length + closing.length) = opening ++ (content ++ closing) := by
    rw [← append_assoc content, ← append_assoc opening]
    exact take_left' (by simp [Nat.add_assoc])
  refine ⟨rfl, ?_, ?_⟩
  · simp only [length_append]
    omega
  · rw [htake]
    simp only [Bounds.of, Text.size_append, Nat.add_assoc]

/-- At an offset that a text goes on behind, the token is found that is scanned there. -/
theorem exists_tile (page : PageRef) (front : Text) (c : Char) (cs : Text) :
    ∃ tile n, tileAt page (front ++ c :: cs) front.size = .ok tile ∧
      Fits page (front ++ c :: cs) front.size tile ∧
      scan page front.getLast? c cs = (tile.token, n) ∧ 1 ≤ n ∧ n ≤ (c :: cs).length ∧
      tile.bounds.next = Text.size (front ++ (c :: cs).take n) := by
  obtain ⟨tile, htile, hplaced⟩ := tileAt_append page front c cs
  have hpos := one_le_scan_length page front.getLast? c cs
  rcases hscan : scan page front.getLast? c cs with ⟨token, n⟩
  rw [hscan] at hplaced hpos
  obtain ⟨rfl, hle, hnext⟩ := hplaced.next
  exact ⟨tile, n, htile, hplaced.fits hpos, rfl, hpos, hle, hnext⟩

theorem tiled_append (page : PageRef) (front rest : Text) :
    Tiled page (front ++ rest) front.size := by
  induction hlength : rest.length using Nat.strong_induction_on generalizing front rest with
  | _ k ih =>
      cases rest with
      | nil =>
          rw [append_nil]
          exact .done front
      | cons c cs =>
          obtain ⟨tile, n, htile, hfits, hscan, hpos, hle, hnext⟩ := exists_tile page front c cs
          refine .tile htile hfits (fun style content htoken => ?_) ?_
          · rw [htoken] at hscan
            exact ih _ (hlength ▸ length_lt_of_scan_span hscan) [] content rfl
          · have hshorter : ((c :: cs).drop n).length < k := by
              rw [length_drop]
              omega
            have hbehind := ih _ hshorter (front ++ (c :: cs).take n) _ rfl
            rwa [append_assoc, take_append_drop, ← hnext] at hbehind

/-- From an offset on, the nodes are read that are those of the text behind it. -/
theorem nodesAt_append {steps : Nat} (hsteps : rest.length < steps) (page : PageRef)
    (front : Text) :
    nodesAt page steps (front ++ rest) front.size = .ok (nodesFrom page front.getLast? rest) := by
  induction steps generalizing front rest with
  | zero => exact absurd hsteps (Nat.not_lt_zero _)
  | succ steps ih =>
      cases rest with
      | nil => simp [nodesAt, nodesFrom]
      | cons c cs =>
          obtain ⟨tile, n, htile, -, hscan, hpos, hle, hnext⟩ := exists_tile page front c cs
          have hshorter : ((c :: cs).drop n).length < steps := by
            rw [length_drop]
            omega
          have hbehind := ih hshorter (front ++ (c :: cs).take n)
          rw [append_assoc, take_append_drop, ← hnext, getLast?_append_take hpos hle] at hbehind
          rw [nodesFrom_cons hscan]
          simp only [nodesAt, if_pos (size_lt_size_append_cons front c cs), htile, Sliced.ok_bind]
          cases htoken : tile.token with
          | literal | leaf => simp only [hbehind]; rfl
          | span style content =>
              rw [htoken] at hscan
              have hcontent : content.length < steps :=
                (length_lt_of_scan_span hscan).trans_le (Nat.le_of_lt_succ hsteps)
              have hinside : nodesAt page steps content 0 = .ok (nodesFrom page none content) :=
                ih hcontent []
              simp only [hinside, hbehind]
              rfl

/-- Reading a text inline, token by token and by offsets, takes no slice that is out of its bounds
or within a character, and ends.  Each token covers a part of what is left that is not empty, up to
the end of the text, and so it is in what is inside emphasis, which is shorter than the text that
it is in; a content stands between what opens and what closes it.  The nodes are those of the
text. -/
theorem tiled_and_parseByOffset (page : PageRef) (text : Text) :
    Tiled page text 0 ∧ parseByOffset page text = .ok (parse page text) :=
  ⟨tiled_append page [] text,
    nodesAt_append (Nat.lt_succ_of_le (Text.length_le_size text)) page []⟩

end Creole.Inline
