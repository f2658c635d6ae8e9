import Sag.Identity
import Sag.Smtp
import Sag.Util.Percent

/-!
# What a relay receives

The message is dot-stuffed as a text and sent as UTF-8, which comes to the same as stuffing its
bytes (`utf8_stuff`); so a relay receives the message that was built, with one line end more, and
goes on with the command after it (`data_transparent`). Every header takes one line, whatever the
subject and the recipient are, and so does every command.
-/

namespace Sag

/-! ## Bytes of a text -/

theorem utf8_cons_ascii {u : CodeUnit} (hu : u.toNat < 128) (s : JsString) :
    utf8 (u :: s) = UInt8.ofNat u.toNat :: utf8 s := by
  rw [utf8, CaseTables.codePoints_cons hu, List.flatMap_cons, utf8Point_small hu]
  rfl

/-- The text begins with the units of a point beyond ASCII, whatever comes after what comes next. -/
structure WideFront (s front rest : JsString) (bytes : Bytes) : Prop where
  split : s = front ++ rest
  units : ∀ u ∈ front, 128 ≤ u.toNat
  high : ∀ b ∈ bytes, 128 ≤ b.toNat
  nonempty : front ≠ [] ∧ bytes ≠ []
  utf8_append : ∀ t : JsString, t.head? = rest.head? → utf8 (front ++ t) = bytes ++ utf8 t

theorem WideFront.length_lt {s front rest : JsString} {bytes : Bytes} (h : WideFront s front rest bytes) :
    rest.length < s.length := by
  have hpos := List.length_pos_iff.mpr h.nonempty.1
  rw [h.split, List.length_append]
  omega

theorem exists_wideFront {u : CodeUnit} {s : JsString} (hu : 128 ≤ u.toNat) :
    ∃ front rest bytes, WideFront (u :: s) front rest bytes := by
  have single : (∀ v, s.head? = some v → ¬ (isHighSurrogate u && isLowSurrogate v) = true) →
      WideFront (u :: s) [u] s (utf8Point u.toNat) := by
    intro hpair
    obtain ⟨hhigh, hne⟩ := utf8Point_high hu (Nat.lt_trans u.toNat_lt (by decide))
    refine ⟨rfl, fun v hv => List.mem_singleton.mp hv ▸ hu, hhigh, ⟨List.cons_ne_nil _ _, hne⟩, fun t ht => ?_⟩
    have hpoints : codePoints (u :: t) = u.toNat :: codePoints t := by
      cases t with
      | nil => rfl
      | cons v t => rw [codePoints, if_neg (hpair v ht.symm)]
    rw [List.singleton_append, utf8, hpoints, List.flatMap_cons]
    rfl
  cases s with
  | nil => exact ⟨_, _, _, single fun v hv => by cases hv⟩
  | cons v s =>
    by_cases hpair : (isHighSurrogate u && isLowSurrogate v) = true
    · -- two units make the point
      have hranges := hpair
      simp only [isHighSurrogate, isLowSurrogate, Bool.and_eq_true, decide_eq_true_eq,
        UInt16.le_iff_toNat_le] at hranges
      obtain ⟨⟨hu₁, hu₂⟩, hv₁, hv₂⟩ := hranges
      have hu₁ : 0xD800 ≤ u.toNat := hu₁
      have hu₂ : u.toNat ≤ 0xDBFF := hu₂
      have hv₁ : 0xDC00 ≤ v.toNat := hv₁
      have hv₂ : v.toNat ≤ 0xDFFF := hv₂
      let p := 0x10000 + (u.toNat - 0xD800) * 0x400 + (v.toNat - 0xDC00)
      obtain ⟨hhigh, hne⟩ := utf8Point_high (p := p) (by omega) (by omega)
      refine ⟨[u, v], s, utf8Point p, rfl, ?_, hhigh, ⟨List.cons_ne_nil _ _, hne⟩, fun t _ => ?_⟩
      · intro w hw
        simp only [List.mem_cons, List.not_mem_nil, or_false] at hw
        rcases hw with rfl | rfl <;> omega
      · show utf8 (u :: v :: t) = _
        rw [utf8, codePoints, if_pos hpair, List.flatMap_cons]
        rfl
    · exact ⟨_, _, _, single fun w hw => Option.some.inj hw ▸ hpair⟩

/-- An ASCII byte comes first where the character does. -/
theorem head?_utf8 {c : CodeUnit} (hc : c.toNat < 128) (s : JsString) :
    (utf8 s).head? = some (UInt8.ofNat c.toNat) ↔ s.head? = some c := by
  have hbyte : ∀ {n : Nat}, n < 128 → (UInt8.ofNat n).toNat = n := fun hn => by
    rw [UInt8.toNat_ofNat']
    exact Nat.mod_eq_of_lt (by omega)
  cases s with
  | nil => exact ⟨nofun, nofun⟩
  | cons u s =>
    by_cases hu : u.toNat < 128
    · rw [utf8_cons_ascii hu, List.head?_cons, List.head?_cons, Option.some.injEq, Option.some.injEq]
      constructor
      · intro heq
        have hnat := congrArg UInt8.toNat heq
        rw [hbyte hu, hbyte hc] at hnat
        exact UInt16.toNat_inj.mp hnat
      · exact fun heq => by rw [heq]
    · have hu : 128 ≤ u.toNat := Nat.le_of_not_lt hu
      obtain ⟨front, rest, bytes, hfront⟩ := exists_wideFront (s := s) hu
      obtain ⟨b, more, rfl⟩ := List.exists_cons_of_ne_nil hfront.nonempty.2
      have hb := hfront.high b List.mem_cons_self
      rw [hfront.split, hfront.utf8_append rest rfl, ← hfront.split, List.cons_append, List.head?_cons,
        List.head?_cons, Option.some.injEq, Option.some.injEq]
      constructor
      · intro heq
        rw [heq, hbyte hc] at hb
        omega
      · intro heq
        rw [heq] at hu
        omega

/-- And it stands anywhere only where the character does. -/
theorem mem_of_mem_utf8 {c : CodeUnit} (hc : c.toNat < 128) (s : JsString)
    (h : UInt8.ofNat c.toNat ∈ utf8 s) : c ∈ s := by
  match s with
  | [] => cases h
  | u :: s =>
    have hhead := head?_utf8 hc (u :: s)
    by_cases hu : u.toNat < 128
    · rw [utf8_cons_ascii hu] at h hhead
      rcases List.mem_cons.mp h with heq | h
      · rw [← Option.some.inj (hhead.mp (by rw [heq]; rfl))]
        exact List.mem_cons_self
      · exact List.mem_cons_of_mem _ (mem_of_mem_utf8 hc s h)
    · obtain ⟨front, rest, bytes, hfront⟩ := exists_wideFront (s := s) (Nat.le_of_not_lt hu)
      have hshort : rest.length < s.length + 1 := hfront.length_lt
      rw [hfront.split, hfront.utf8_append rest rfl] at h
      rcases List.mem_append.mp h with h | h
      · have hhigh := hfront.high _ h
        rw [UInt8.toNat_ofNat', Nat.mod_eq_of_lt (by omega)] at hhigh
        omega
      · rw [hfront.split]
        exact List.mem_append_right _ (mem_of_mem_utf8 hc rest h)
termination_by s.length

theorem codePoints_append {u : CodeUnit} (hu : u.toNat < 128) (b : JsString) :
    ∀ a : JsString, codePoints (a ++ u :: b) = codePoints a ++ codePoints (u :: b) := by
  intro a
  induction a using codePoints.induct with
  | case1 => rfl
  | case2 v =>
    have hpair : ¬ (isHighSurrogate v && isLowSurrogate u) = true := by
      intro hpair
      simp only [isLowSurrogate, Bool.and_eq_true, decide_eq_true_eq, UInt16.le_iff_toNat_le] at hpair
      have hlow : 0xDC00 ≤ u.toNat := hpair.2.1
      omega
    show codePoints (v :: u :: b) = v.toNat :: codePoints (u :: b)
    rw [codePoints, if_neg hpair]
  | case3 v w a hpair ih =>
    rw [List.cons_append, List.cons_append, codePoints, codePoints, if_pos hpair, if_pos hpair, ih, List.cons_append]
  | case4 v w a hpair ih =>
    rw [List.cons_append] at ih
    rw [List.cons_append, List.cons_append, codePoints, codePoints, if_neg hpair, if_neg hpair, ih, List.cons_append]

/-- A text is encoded in two parts where the second begins with ASCII. -/
theorem utf8_append_ascii {u : CodeUnit} (hu : u.toNat < 128) (a b : JsString) :
    utf8 (a ++ u :: b) = utf8 a ++ utf8 (u :: b) := by
  rw [utf8, codePoints_append hu, List.flatMap_append]
  rfl

/-- A text is stuffed as its bytes are. -/
theorem utf8_stuff (s : JsString) : utf8 (Lines.stuff CR LF dot s) = Lines.stuff 13 10 46 (utf8 s) := by
  match s with
  | [] => rfl
  | u :: s =>
    by_cases hu : u.toNat < 128
    · by_cases hmark : u = CR ∧ s.head? = some LF
      · obtain ⟨rfl, hhead⟩ := hmark
        obtain ⟨s, rfl⟩ : ∃ t, s = LF :: t := by
          cases s with
          | nil => cases hhead
          | cons v t => exact ⟨t, by rw [Option.some.inj hhead]⟩
        have hdot : (utf8 s).head? = some 46 ↔ s.head? = some dot := head?_utf8 (c := dot) (by decide) s
        rw [Lines.stuff_mark (by decide) (by decide), utf8_cons_ascii (by decide), utf8_cons_ascii (by decide),
          utf8_cons_ascii (by decide), utf8_cons_ascii (by decide)]
        show 13 :: 10 :: _ = Lines.stuff 13 10 46 (13 :: 10 :: utf8 s)
        rw [Lines.stuff_mark (by decide) (by decide)]
        by_cases hs : s.head? = some dot
        · rw [if_pos hs, if_pos (hdot.mpr hs), utf8_cons_ascii (by decide), utf8_stuff s]
          rfl
        · rw [if_neg hs, if_neg fun h => hs (hdot.mp h), utf8_stuff s]
      · have hunits : ¬ ∃ rest, u :: s = CR :: LF :: dot :: rest := by
          intro ⟨rest, heq⟩
          obtain ⟨hu, hs⟩ := List.cons.inj heq
          exact hmark ⟨hu, by rw [hs]; rfl⟩
        have hbytes : ¬ ∃ rest, UInt8.ofNat u.toNat :: utf8 s = 13 :: 10 :: 46 :: rest := by
          intro ⟨rest, heq⟩
          obtain ⟨hbyte, hs⟩ := List.cons.inj heq
          refine hmark ⟨?_, (head?_utf8 (by decide) s).mp (by rw [hs]; rfl)⟩
          have hnat := congrArg UInt8.toNat hbyte
          rw [UInt8.toNat_ofNat', Nat.mod_eq_of_lt (by omega)] at hnat
          exact UInt16.toNat_inj.mp hnat
        rw [Lines.stuff_cons hunits, utf8_cons_ascii hu, utf8_cons_ascii hu, Lines.stuff_cons hbytes, utf8_stuff s]
    · obtain ⟨front, rest, bytes, hfront⟩ := exists_wideFront (s := s) (Nat.le_of_not_lt hu)
      have hcr : CR ∉ front := fun hmem => absurd (hfront.units CR hmem) (by decide)
      have hcr' : 13 ∉ bytes := fun hmem => absurd (hfront.high 13 hmem) (by decide)
      have hshort : rest.length < s.length + 1 := hfront.length_lt
      rw [hfront.split, Lines.stuff_append hcr, hfront.utf8_append _ (Lines.head?_stuff rest),
        hfront.utf8_append rest rfl, Lines.stuff_append hcr', utf8_stuff rest]
termination_by s.length

/-! ## Texts of one line -/

/-- Nothing in the text ends a line. -/
def OneLine (s : JsString) : Prop := CR ∉ s ∧ LF ∉ s

instance (s : JsString) : Decidable (OneLine s) := inferInstanceAs (Decidable (_ ∧ _))

/-- No line of the text holds a line end by itself. -/
def PlainLines (s : JsString) : Prop := ∀ line ∈ linesOf s, OneLine line

theorem OneLine.append {a b : JsString} (ha : OneLine a) (hb : OneLine b) : OneLine (a ++ b) := by
  constructor
  · exact fun hmem => (List.mem_append.mp hmem).elim ha.1 hb.1
  · exact fun hmem => (List.mem_append.mp hmem).elim ha.2 hb.2

theorem OneLine.cons {u : CodeUnit} {s : JsString} (hu : u ≠ CR ∧ u ≠ LF) (hs : OneLine s) : OneLine (u :: s) := by
  constructor
  · exact fun hmem => (List.mem_cons.mp hmem).elim (fun heq => hu.1 heq.symm) hs.1
  · exact fun hmem => (List.mem_cons.mp hmem).elim (fun heq => hu.2 heq.symm) hs.2

theorem OneLine.of_subset {a b : JsString} (h : ∀ u ∈ a, u ∈ b) (hb : OneLine b) : OneLine a :=
  ⟨fun hmem => hb.1 (h _ hmem), fun hmem => hb.2 (h _ hmem)⟩

/-- Whatever the units have in common, a line end has not. -/
theorem OneLine.of_forall {p : CodeUnit → Bool} {s : JsString} (h : ∀ u ∈ s, p u = true)
    (hends : p CR = false ∧ p LF = false) : OneLine s := by
  constructor
  · exact fun hmem => absurd (h CR hmem) (by rw [hends.1]; exact Bool.false_ne_true)
  · exact fun hmem => absurd (h LF hmem) (by rw [hends.2]; exact Bool.false_ne_true)

theorem OneLine.of_no_space {s : JsString} (h : ∀ u ∈ s, isSpace u = false) : OneLine s :=
  OneLine.of_forall (p := fun u => !isSpace u) (fun u hu => by rw [h u hu]; rfl) ⟨rfl, rfl⟩

theorem linesOf_oneLine {s : JsString} (h : OneLine s) : linesOf s = [s] := Lines.cut_of_notMem h.1

theorem PlainLines.of_oneLine {s : JsString} (h : OneLine s) : PlainLines s := by
  intro line hline
  rw [linesOf_oneLine h] at hline
  exact List.mem_singleton.mp hline ▸ h

theorem PlainLines.append {a s : JsString} (ha : OneLine a) (hs : PlainLines s) : PlainLines (a ++ s) := by
  intro line hline
  rw [linesOf, Lines.cut_append ha.1] at hline
  rw [PlainLines, linesOf] at hs
  cases hcut : Lines.cut CR LF s with
  | nil => exact absurd hcut (Lines.cut_ne_nil _)
  | cons l ls =>
    rw [hcut] at hline hs
    rcases List.mem_cons.mp hline with rfl | hline
    · exact ha.append (hs l List.mem_cons_self)
    · exact hs line (List.mem_cons_of_mem _ hline)

theorem PlainLines.crlf {s : JsString} (hs : PlainLines s) : PlainLines (crlf ++ s) := by
  intro line hline
  rw [linesOf, show Sag.crlf ++ s = CR :: LF :: s from rfl, Lines.cut_mark] at hline
  rcases List.mem_cons.mp hline with rfl | hline
  · exact ⟨List.not_mem_nil, List.not_mem_nil⟩
  · exact hs line hline

/-! ## Headers -/

theorem b64_oneLine (bytes : Bytes) : OneLine (b64 bytes) := OneLine.of_no_space (b64_no_space bytes)

theorem encodeHeaderValue_oneLine (s : JsString) : OneLine (encodeHeaderValue s) := by
  unfold encodeHeaderValue
  split
  · next h => exact OneLine.of_forall (List.all_eq_true.mp h) ⟨rfl, rfl⟩
  · exact ((by decide : OneLine (js "=?UTF-8?B?")).append (b64_oneLine _)).append (by decide)

theorem mem_of_mem_trim {s : JsString} {u : CodeUnit} (h : u ∈ trim s) : u ∈ s := by
  have hdrop := (List.dropWhile_suffix isSpace).subset (List.mem_reverse.mp h)
  exact (List.dropWhile_suffix isSpace).subset (List.mem_reverse.mp hdrop)

theorem mem_of_inBrackets {s address : JsString} (h : inBrackets s = some address) : ∀ u ∈ address, u ∈ s := by
  intro u hu
  have hdrop : u ∈ s.dropWhile isSpace := by
    unfold inBrackets at h
    split at h
    · cases h
    · next v rest heq =>
      rw [heq]
      split at h
      · cases h
      · split at h
        · next w ws hbreak =>
          obtain ⟨rfl, -⟩ := breakFirst_eq_some_iff.mp hbreak
          rw [← Option.some.inj h] at hu
          exact List.mem_cons_of_mem _ (List.mem_append_left _ hu)
        · cases h
  exact (List.dropWhile_suffix isSpace).subset hdrop

/-- The name and the address are parts of what they were read from. -/
theorem mem_of_matchNamed {s name address : JsString} (h : matchNamed s = some (name, address)) :
    (∀ u ∈ name, u ∈ s) ∧ ∀ u ∈ address, u ∈ s := by
  induction s generalizing name with
  | nil => cases h
  | cons v s ih =>
    rw [matchNamed] at h
    cases hfound : inBrackets (v :: s) with
    | some found =>
      rw [hfound] at h
      obtain ⟨rfl, rfl⟩ := Prod.mk.inj (Option.some.inj h)
      exact ⟨fun u hu => absurd hu List.not_mem_nil, mem_of_inBrackets hfound⟩
    | none =>
      rw [hfound, Option.map_none, Option.orElse_eq_orElse, Option.orElse_none] at h
      split at h
      · cases h
      · obtain ⟨m, hm, heq⟩ := Option.map_eq_some_iff.mp h
        obtain ⟨rfl, rfl⟩ := Prod.mk.inj heq
        obtain ⟨hname, haddress⟩ := ih hm
        refine ⟨fun u hu => ?_, fun u hu => List.mem_cons_of_mem _ (haddress u hu)⟩
        rcases List.mem_cons.mp hu with rfl | hu
        · exact List.mem_cons_self
        · exact List.mem_cons_of_mem _ (hname u hu)

theorem mem_of_mem_withoutQuotes {s : JsString} {u : CodeUnit} (h : u ∈ withoutQuotes s) : u ∈ s := by
  have hopened : u ∈ (if s.head? = some quoteMark then s.tail else s) → u ∈ s := by
    intro hu
    split at hu
    · exact List.mem_of_mem_tail hu
    · exact hu
  have hclosed : ∀ t : JsString, u ∈ (if t.getLast? = some quoteMark then t.dropLast else t) → u ∈ t := by
    intro t hu
    split at hu
    · exact (List.dropLast_prefix t).subset hu
    · exact hu
  exact hopened (hclosed _ h)

theorem parseAddress_oneLine {input : Option JsString} (h : OneLine (input.getD [])) :
    (∀ name, (parseAddress input).name = some name → OneLine name) ∧ OneLine (parseAddress input).address := by
  have htrim := OneLine.of_subset (fun _ => mem_of_mem_trim) h
  unfold parseAddress
  dsimp only
  cases hmatch : matchNamed (trim (input.getD [])) with
  | none => exact ⟨nofun, htrim⟩
  | some m =>
    obtain ⟨named, address⟩ := m
    obtain ⟨hname, haddress⟩ := mem_of_matchNamed hmatch
    refine ⟨fun name hsome => ?_, OneLine.of_subset (fun u hu => haddress u (mem_of_mem_trim hu)) htrim⟩
    have hsome : (some (trim (withoutQuotes named))).filter (· ≠ []) = some name := hsome
    obtain rfl := Option.some.inj (Option.filter_eq_some_iff.mp hsome).1
    exact OneLine.of_subset (fun u hu => hname u (mem_of_mem_withoutQuotes (mem_of_mem_trim hu))) htrim

theorem formatAddress_oneLine {input : Option JsString} (h : OneLine (input.getD [])) :
    OneLine (formatAddress (parseAddress input)) := by
  have haddress := (parseAddress_oneLine h).2
  unfold formatAddress
  split
  · exact haddress
  · next name _ =>
    have hname := OneLine.of_subset (fun _ hu => (List.mem_filter.mp hu).1) (encodeHeaderValue_oneLine name)
      (a := (encodeHeaderValue name).filter (· ≠ quoteMark))
    have hquoted := OneLine.cons (u := quoteMark) (by decide) hname
    exact ((hquoted.append (by decide)).append haddress).append (by decide)

theorem hostnameFor_oneLine {address : JsString} (h : OneLine address) : OneLine (hostnameFor address) := by
  unfold hostnameFor
  split
  · next u domain heq =>
    have hpiece := splitWhere_piece (List.mem_of_getElem? heq)
    exact OneLine.of_subset (fun v hv => (hpiece v hv).2) h
  · decide

theorem toHex_oneLine (bytes : Bytes) : OneLine (toHex bytes) := by
  refine OneLine.of_forall (p := fun u => u ≠ CR && u ≠ LF) (fun u hu => ?_) ⟨rfl, rfl⟩
  obtain ⟨b, -, hu⟩ := List.mem_flatMap.mp hu
  have hall : ∀ n : Fin 256, ∀ u ∈ toHex [UInt8.ofNat n], (u ≠ CR && u ≠ LF) = true := by decide +kernel
  have hb := hall ⟨b.toNat, b.toNat_lt⟩ u
  rw [UInt8.ofNat_toNat] at hb
  exact hb (by simpa [toHex] using hu)

/-! ## The message -/

/-- A mail to an address that sign-in accepts. The sender, the address for replies and the date
come from the configuration and from the platform. -/
structure Sendable (mail : Mail) : Prop where
  accepted : ∃ e, mail.«to» = some e ∧ looksLikeEmail e = true
  sender : OneLine (mail.«from».getD [])
  replyTo : OneLine (mail.replyTo.getD [])
  date : OneLine mail.date

theorem Sendable.recipient {mail : Mail} (h : Sendable mail) : OneLine (mail.«to».getD []) := by
  obtain ⟨e, he, hlooks⟩ := h.accepted
  rw [he, Option.getD_some]
  exact OneLine.of_no_space (looksLikeEmail_no_space hlooks)

theorem boundaryOf_oneLine (mail : Mail) : OneLine (boundaryOf mail) :=
  OneLine.append (by decide) (OneLine.of_subset (fun _ hu => (List.mem_filter.mp hu).1) (b64_oneLine _))

/-- Every header is one line, and none is empty. -/
theorem mimeHeaders_oneLine {mail : Mail} (h : Sendable mail) :
    ∀ header ∈ mimeHeaders mail, OneLine header ∧ header ≠ [] := by
  have hfrom := formatAddress_oneLine h.sender
  have hhost := hostnameFor_oneLine (parseAddress_oneLine h.sender).2
  have hid : OneLine (messageId mail.idBytes (hostnameFor (parseAddress mail.«from»).address)) :=
    ((((by decide : OneLine (js "<")).append (toHex_oneLine _)).append (by decide)).append hhost).append (by decide)
  have hboundary := (boundaryOf_oneLine mail).append (by decide : OneLine (js "\""))
  have after : ∀ {name value : JsString}, OneLine name → name ≠ [] → OneLine value →
      OneLine (name ++ value) ∧ name ++ value ≠ [] :=
    fun hname hne hvalue => ⟨hname.append hvalue, fun heq => hne (List.append_eq_nil_iff.mp heq).1⟩
  intro header hmem
  rcases List.mem_append.mp hmem with hmem | hmem
  · simp only [List.mem_cons, List.not_mem_nil, or_false] at hmem
    rcases hmem with rfl | rfl | rfl | rfl | rfl | rfl | rfl | rfl | rfl
    · exact after (by decide) (by decide) hfrom
    · exact after (by decide) (by decide) (formatAddress_oneLine h.recipient)
    · exact after (by decide) (by decide) (encodeHeaderValue_oneLine _)
    · exact after (by decide) (by decide) h.date
    · exact after (by decide) (by decide) hid
    · decide
    · decide
    · decide
    · rw [List.append_assoc]
      exact after (by decide) (by decide) hboundary
  · split at hmem
    · exact absurd hmem List.not_mem_nil
    · next replyTo hreply =>
      obtain rfl := List.mem_singleton.mp hmem
      have hset : mail.replyTo = some replyTo := (Option.filter_eq_some_iff.mp hreply).1
      refine after (by decide) (by decide) (formatAddress_oneLine ?_)
      have hline := h.replyTo
      rwa [hset] at hline

theorem hexByte_oneLine (b : UInt8) : OneLine (61 :: hexByte b) := by
  have hall : ∀ n : Fin 256, OneLine (61 :: hexByte (UInt8.ofNat n)) := by decide +kernel
  have hb := hall ⟨b.toNat, b.toNat_lt⟩
  rwa [UInt8.ofNat_toNat] at hb

theorem quotedChunk_oneLine (b : UInt8) : OneLine (quotedChunk b) := by
  rcases quotedChunk_cases b with ⟨hchunk, -⟩ | ⟨hchunk, hlow, hhigh, -⟩
  · rw [hchunk]
    exact hexByte_oneLine b
  · rw [hchunk]
    have hnat : (UInt16.ofNat b.toNat).toNat = b.toNat := UInt16.toNat_ofNat_of_lt' (by simp [UInt16.size]; omega)
    refine OneLine.cons ⟨fun heq => ?_, fun heq => ?_⟩ ⟨List.not_mem_nil, List.not_mem_nil⟩
    · rw [heq, show CR.toNat = 13 from rfl] at hnat
      omega
    · rw [heq, show LF.toNat = 10 from rfl] at hnat
      omega

theorem softBreak_plainLines {n : Nat} {b : UInt8} {s : JsString} (hs : PlainLines s) :
    PlainLines (softBreak n b ++ s) := by
  unfold softBreak
  split
  · rw [List.append_assoc]
    exact PlainLines.append (by decide) hs.crlf
  · exact hs

/-- Quoted-printable text has no line ends but CRLF. -/
theorem quotedFrom_plainLines : ∀ (bytes : Bytes) (n : Nat), PlainLines (quotedFrom n bytes)
  | [], n => PlainLines.of_oneLine (by rw [quotedFrom]; decide)
  | [b], n => by
    rw [quotedFrom]
    exact softBreak_plainLines (PlainLines.of_oneLine (quotedChunk_oneLine b))
  | b :: c :: rest, n => by
    rw [quotedFrom]
    split
    · exact (quotedFrom_plainLines rest 0).crlf
    · have hrest := quotedFrom_plainLines (c :: rest) (columnAfter n b)
      rw [List.append_assoc]
      refine softBreak_plainLines (PlainLines.append ?_ hrest)
      split
      · decide
      · exact quotedChunk_oneLine b
termination_by bytes => bytes.length

theorem quotedPrintable_plainLines (s : JsString) : PlainLines (quotedPrintable s) := by
  rw [quotedPrintable_eq]
  exact quotedFrom_plainLines _ 0

theorem mimeParts_plainLines (mail : Mail) : ∀ part ∈ mimeParts mail, PlainLines part := by
  have hboundary := OneLine.append (by decide : OneLine (js "--")) (boundaryOf_oneLine mail)
  have hempty : PlainLines [] := PlainLines.of_oneLine (by decide)
  have hencoding : PlainLines (js "Content-Transfer-Encoding: quoted-printable") := PlainLines.of_oneLine (by decide)
  intro part hmem
  simp only [mimeParts, List.mem_cons, List.not_mem_nil, or_false] at hmem
  rcases hmem with rfl | rfl | rfl | rfl | rfl | rfl | rfl | rfl | rfl | rfl | rfl | rfl
  · exact PlainLines.of_oneLine hboundary
  · exact PlainLines.of_oneLine (by decide)
  · exact hencoding
  · exact hempty
  · exact quotedPrintable_plainLines _
  · exact PlainLines.of_oneLine hboundary
  · exact PlainLines.of_oneLine (by decide)
  · exact hencoding
  · exact hempty
  · exact quotedPrintable_plainLines _
  · exact PlainLines.of_oneLine (hboundary.append (by decide))
  · exact hempty

theorem linesOf_buildMimeMessage {mail : Mail} (h : Sendable mail) :
    linesOf (buildMimeMessage mail) = mimeHeaders mail ++ [] :: (mimeParts mail).flatMap linesOf := by
  have hne : CR ≠ LF := by decide
  have hheaders : (mimeHeaders mail).flatMap linesOf = mimeHeaders mail := by
    have hall := fun header hmem => linesOf_oneLine (mimeHeaders_oneLine h header hmem).1
    revert hall
    generalize mimeHeaders mail = headers
    intro hall
    induction headers with
    | nil => rfl
    | cons header headers ih =>
      rw [List.flatMap_cons, hall header List.mem_cons_self, ih fun l hl => hall l (List.mem_cons_of_mem _ hl)]
      rfl
  have hraw : buildMimeMessage mail =
      joinLines (mimeHeaders mail) ++ CR :: LF :: CR :: LF :: joinLines (mimeParts mail) := by
    rw [buildMimeMessage, List.append_assoc, List.append_assoc]
    rfl
  have hsome : mimeHeaders mail ≠ [] := List.append_ne_nil_of_left_ne_nil (List.cons_ne_nil _ _) _
  have hparts : mimeParts mail ≠ [] := List.cons_ne_nil _ _
  rw [hraw, linesOf, Lines.cut_append_mark hne, Lines.cut_mark, joinLines, joinLines, Lines.cut_joined hne hsome,
    Lines.cut_joined hne hparts]
  exact congrArg (· ++ [] :: (mimeParts mail).flatMap linesOf) hheaders

theorem buildMimeMessage_plainLines {mail : Mail} (h : Sendable mail) : PlainLines (buildMimeMessage mail) := by
  intro line hline
  rw [linesOf_buildMimeMessage h] at hline
  rcases List.mem_append.mp hline with hline | hline
  · exact (mimeHeaders_oneLine h line hline).1
  · rcases List.mem_cons.mp hline with rfl | hline
    · decide
    · obtain ⟨part, hpart, hline⟩ := List.mem_flatMap.mp hline
      exact mimeParts_plainLines mail part hpart line hline

/-! ## The commands -/

theorem authCommands_oneLine (options : SmtpOptions) (auth : SmtpAuth) :
    ∀ command ∈ authCommands options auth, OneLine command := by
  intro command hmem
  unfold authCommands at hmem
  split at hmem
  · exact absurd hmem List.not_mem_nil
  · dsimp only at hmem
    split at hmem
    · obtain rfl := List.mem_singleton.mp hmem
      exact OneLine.append (by decide) (b64_oneLine _)
    · simp only [List.mem_cons, List.not_mem_nil, or_false] at hmem
      rcases hmem with rfl | rfl | rfl
      · decide
      · exact b64_oneLine _
      · exact b64_oneLine _

theorem envelopeCommands_oneLine {sender recipient : JsString} (hsender : OneLine sender)
    (hrecipient : OneLine recipient) (options : SmtpOptions) (auth : SmtpAuth) :
    ∀ command ∈ envelopeCommands options auth sender recipient, OneLine command := by
  have hhello : OneLine (js "EHLO " ++ hostnameFor sender) :=
    OneLine.append (by decide) (hostnameFor_oneLine hsender)
  have bracketed : ∀ {verb address : JsString}, OneLine verb → OneLine address → OneLine (verb ++ address ++ js ">") :=
    fun hverb haddress => (hverb.append haddress).append (by decide)
  intro command hmem
  rcases List.mem_append.mp hmem with hmem | hmem
  · rcases List.mem_append.mp hmem with hmem | hmem
    · rcases List.mem_append.mp hmem with hmem | hmem
      · exact List.mem_singleton.mp hmem ▸ hhello
      · split at hmem
        · simp only [List.mem_cons, List.not_mem_nil, or_false] at hmem
          rcases hmem with rfl | rfl
          · decide
          · exact hhello
        · exact absurd hmem List.not_mem_nil
    · exact authCommands_oneLine options auth command hmem
  · simp only [List.mem_cons, List.not_mem_nil, or_false] at hmem
    rcases hmem with rfl | rfl | rfl
    · exact bracketed (by decide) hsender
    · exact bracketed (by decide) hrecipient
    · decide

/-! ## The conversation -/

/-- What the relay makes of the bytes of a conversation. -/
structure Transparent (options : SmtpOptions) (auth : SmtpAuth) (mail : Mail) : Prop where
  /-- The conversation is commands of one line each, the message, and one more command. -/
  conversation : ∃ commands, sendSmtp options auth mail = commands ++ [dataOf (buildMimeMessage mail), js "QUIT"] ∧
    ∀ command ∈ commands, Lines.cut 13 10 (written command) = [utf8 command, []] ∧ 10 ∉ utf8 command
  /-- The message arrives as it was built, and what follows it is left for the next command. -/
  received : ∀ next : Bytes, Lines.receive 13 10 46 (written (dataOf (buildMimeMessage mail)) ++ next) =
    some (utf8 (buildMimeMessage mail) ++ [13, 10], next)
  /-- Each header is a line, the header ends at the first empty one, and the parts come after it. -/
  lines : linesOf (buildMimeMessage mail) = mimeHeaders mail ++ [] :: (mimeParts mail).flatMap linesOf ∧
    [] ∉ mimeHeaders mail
  /-- No line holds half a line end. -/
  plain : PlainLines (buildMimeMessage mail)

theorem written_oneLine {command : JsString} (h : OneLine command) :
    Lines.cut 13 10 (written command) = [utf8 command, []] ∧ 10 ∉ utf8 command := by
  have hcr : 13 ∉ utf8 command := fun hmem => h.1 (mem_of_mem_utf8 (c := CR) (by decide) command hmem)
  have hlf : 10 ∉ utf8 command := fun hmem => h.2 (mem_of_mem_utf8 (c := LF) (by decide) command hmem)
  have hbytes : written command = utf8 command ++ 13 :: 10 :: [] := utf8_append_ascii (by decide) command [LF]
  rw [hbytes]
  exact ⟨Lines.cut_line hcr [], hlf⟩

/-- What is sent for a message is its stuffed bytes, and the line that ends them. -/
theorem written_dataOf (raw : JsString) :
    written (dataOf raw) = Lines.stuff 13 10 46 (utf8 raw) ++ [13, 10, 46, 13, 10] := by
  have hsplit : dataOf raw ++ crlf = Lines.stuff CR LF dot raw ++ CR :: LF :: dot :: crlf := by
    rw [dataOf, List.append_assoc, List.append_assoc]
    rfl
  rw [written, hsplit, utf8_append_ascii (by decide), utf8_stuff]
  rfl

/-- A mail reaches the relay as it was built, whatever it says. -/
theorem data_transparent (options : SmtpOptions) (auth : SmtpAuth) {mail : Mail} (h : Sendable mail) :
    Transparent options auth mail := by
  have hsender := (parseAddress_oneLine h.sender).2
  have hrecipient := (parseAddress_oneLine h.recipient).2
  refine ⟨⟨_, rfl, fun command hmem => ?_⟩, fun next => ?_, ⟨linesOf_buildMimeMessage h, fun hmem => ?_⟩,
    buildMimeMessage_plainLines h⟩
  · exact written_oneLine (envelopeCommands_oneLine hsender hrecipient options auth command hmem)
  · -- the message begins with the name of a header
    have hhead : (utf8 (buildMimeMessage mail)).head? ≠ some 46 := by
      intro hdot
      have hraw : (buildMimeMessage mail).head? = some dot := (head?_utf8 (c := dot) (by decide) _).mp hdot
      have hfirst : (buildMimeMessage mail).head? = some 70 := rfl
      rw [hfirst] at hraw
      exact absurd (Option.some.inj hraw) (by decide)
    rw [written_dataOf, List.append_assoc]
    exact Lines.receive_stuff (by decide) (by decide) hhead next
  · exact (mimeHeaders_oneLine h [] hmem).2 rfl

namespace Sample

/-- A mail that would end itself and give a command, if it could. -/
def dotted : Mail where
  «from» := some (js "Sign-in <no-reply@gateway.example>")
  «to» := some (js "ann@corp.example")
  replyTo := none
  subject := js "Your code\r\n.\r\nRSET"
  text := js ".\r\nQUIT\r\n..\n."
  html := js "<p>\n.\n</p>"
  date := js "Thu, 01 Jan 2026 00:00:00 +0000"
  boundaryBytes := List.range 12 |>.map UInt8.ofNat
  idBytes := List.range 16 |>.map UInt8.ofNat

def relay : SmtpOptions where
  secure := false
  requireTls := true
  username := some (js "gateway")
  password := some (js "pass\r\nRSET")

/-- It does not. -/
theorem dotted_transparent :
    Transparent relay .login dotted ∧
      (sendSmtp relay .login dotted).length = 11 ∧
      linesOf (quotedPrintable dotted.text) = [js ".", js "QUIT", js "..", js "."] := by
  refine ⟨data_transparent relay .login ⟨⟨js "ann@corp.example", rfl, ?_⟩, ?_, ?_, ?_⟩, ?_⟩
  · decide +kernel
  · decide +kernel
  · decide +kernel
  · decide +kernel
  · decide +kernel

end Sample

end Sag
