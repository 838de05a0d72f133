import HFile.Library.Decimal
import HFile.Library.Split

-- The replies of HTTP/1.1 (RFC 9112), as sequences of bytes.
namespace Http

def cr : UInt8 := 13
def lf : UInt8 := 10
def colon : UInt8 := 58
def space : UInt8 := 32

def crlf : Bytes := [cr, lf]

@[ext]
structure Field where
  name  : Bytes
  value : Bytes

-- The characters of a name, of which neither a colon nor white space is one.
def TokenChar (c : UInt8) : Prop :=
  48 ≤ c ∧ c ≤ 57 ∨ 65 ≤ c ∧ c ≤ 90 ∨ 97 ≤ c ∧ c ≤ 122 ∨ c = 45

instance : DecidablePred TokenChar :=
  fun _ => inferInstanceAs (Decidable (_ ∨ _))

structure Field.Valid (f : Field) : Prop where
  named  : f.name ≠ []
  token  : ∀ c ∈ f.name, TokenChar c
  onLine : cr ∉ f.value ∧ lf ∉ f.value

def Field.line (f : Field) : Bytes :=
  f.name ++ colon :: space :: f.value

-- What stands before the body of a reply.
@[ext]
structure Head where
  status : Bytes
  reason : Bytes
  fields : List Field

structure Head.Valid (h : Head) : Prop where
  length : h.status.length = 3
  digits : ∀ c ∈ h.status, 48 ≤ c ∧ c ≤ 57
  reason : cr ∉ h.reason ∧ lf ∉ h.reason
  fields : ∀ f ∈ h.fields, f.Valid

def Head.text (h : Head) : Bytes :=
  ascii "HTTP/1.1 " ++ h.status ++ space :: h.reason ++ crlf ++ h.fields.flatMap (·.line ++ crlf) ++ crlf

def lower (c : UInt8) : UInt8 :=
  if 65 ≤ c ∧ c ≤ 90 then c + 32 else c

-- Names of fields are compared without regard to the case of letters.
def Field.Named (name : Bytes) (f : Field) : Prop :=
  f.name.map lower = name.map lower

instance (name : Bytes) : DecidablePred (Field.Named name) :=
  fun _ => inferInstanceAs (Decidable (_ = _))

-- The values of all fields of a name.
def Head.values (h : Head) (name : Bytes) : List Bytes :=
  (h.fields.filter (Field.Named name ·)).map (·.value)

-- The head announces a body of `n` bytes, and nothing else.
structure Head.Announces (h : Head) (n : Nat) : Prop where
  length  : ∃ digits, h.values (ascii "Content-Length") = [digits] ∧ digits ≠ [] ∧
    (∀ c ∈ digits, 48 ≤ c ∧ c ≤ 57) ∧ decimalValue digits = n
  unchunked : h.values (ascii "Transfer-Encoding") = []

theorem line_append_inj {l l' r r' : Bytes} (hl : cr ∉ l) (hl' : cr ∉ l')
    (h : l ++ crlf ++ r = l' ++ crlf ++ r') : l = l' ∧ r = r' := by
  have htake : ∀ {l r : Bytes}, cr ∉ l → (l ++ crlf ++ r).takeWhile (· != cr) = l := by
    intro l r hl
    rw [List.append_assoc]
    exact (Split.takeWhile_append hl (lf :: r)).left
  have hll : l = l' := by rw [← htake (r := r) hl, h, htake hl']
  subst hll
  rw [List.append_assoc, List.append_assoc] at h
  exact ⟨rfl, (List.append_cancel_left (List.append_cancel_left h))⟩

namespace Field

variable {f f' : Field}

theorem Valid.colon_notMem (h : f.Valid) : colon ∉ f.name :=
  fun hm => absurd (h.token _ hm) (by decide)

theorem Valid.cr_notMem_line (h : f.Valid) : cr ∉ f.line := by
  have hname : cr ∉ f.name := fun hm => absurd (h.token _ hm) (by decide)
  simp only [line, List.mem_append, List.mem_cons, hname, h.onLine.left, or_false, false_or]
  decide

theorem line_ne_nil (f : Field) : f.line ≠ [] := by
  simp [line]

theorem Valid.line_inj (h : f.Valid) (h' : f'.Valid) (hl : f.line = f'.line) : f = f' := by
  have htake : ∀ {f : Field}, f.Valid → f.line.takeWhile (· != colon) = f.name := by
    intro f h
    exact (Split.takeWhile_append h.colon_notMem _).left
  have hname : f.name = f'.name := by rw [← htake h, hl, htake h']
  rw [line, line, hname] at hl
  have hvalue := List.append_cancel_left hl
  exact Field.ext hname (by simpa using hvalue)

end Field

-- The fields of a head are followed by an empty line.
theorem fields_append_inj {fs fs' : List Field} {r r' : Bytes} (h : ∀ f ∈ fs, f.Valid) (h' : ∀ f ∈ fs', f.Valid)
    (ht : fs.flatMap (·.line ++ crlf) ++ crlf ++ r = fs'.flatMap (·.line ++ crlf) ++ crlf ++ r') :
    fs = fs' ∧ r = r' := by
  have hempty : ∀ {f : Field} {r r' : Bytes}, f.Valid → [] ++ crlf ++ r ≠ f.line ++ crlf ++ r' := by
    intro f r r' hf he
    exact f.line_ne_nil (line_append_inj List.not_mem_nil hf.cr_notMem_line he).left.symm
  induction fs generalizing fs'
  case nil =>
    cases fs'
    case nil => exact ⟨rfl, List.append_cancel_left ht⟩
    case cons f' fs' =>
      rw [List.flatMap_cons, List.append_assoc _ crlf r', List.append_assoc _ _ (crlf ++ r')] at ht
      exact absurd ht (hempty (h' f' (by simp)))
  case cons f fs hi =>
    rw [List.forall_mem_cons] at h
    cases fs'
    case nil =>
      rw [List.flatMap_cons, List.append_assoc _ crlf r, List.append_assoc _ _ (crlf ++ r)] at ht
      exact absurd ht.symm (hempty h.left)
    case cons f' fs' =>
      rw [List.forall_mem_cons] at h'
      rw [List.flatMap_cons, List.flatMap_cons, List.append_assoc _ crlf r, List.append_assoc _ _ (crlf ++ r),
        List.append_assoc _ crlf r', List.append_assoc _ _ (crlf ++ r')] at ht
      have ⟨hline, hrest⟩ := line_append_inj h.left.cr_notMem_line h'.left.cr_notMem_line ht
      rw [← List.append_assoc, ← List.append_assoc] at hrest
      have ⟨hfs, hr⟩ := hi h.right h'.right hrest
      exact ⟨by rw [h.left.line_inj h'.left hline, hfs], hr⟩

-- A receiver that knows the format finds the head and the start of the body, whatever follows.
theorem Head.text_append_inj {h h' : Head} {b b' : Bytes} (hv : h.Valid) (hv' : h'.Valid)
    (ht : h.text ++ b = h'.text ++ b') : h = h' ∧ b = b' := by
  have hsplit : ∀ (h : Head) (b : Bytes), h.text ++ b = ascii "HTTP/1.1 " ++ (h.status ++ (([space] ++ h.reason) ++
      crlf ++ (h.fields.flatMap (·.line ++ crlf) ++ crlf ++ b))) := by
    intro h b
    simp only [Head.text, List.append_assoc, List.cons_append, List.nil_append]
  rw [hsplit, hsplit] at ht
  have hlen : h.status.length = h'.status.length := hv.length.trans hv'.length.symm
  have ⟨hstatus, hrest⟩ := List.append_inj (List.append_cancel_left ht) hlen
  have hcr : ∀ {h : Head}, h.Valid → cr ∉ [space] ++ h.reason := by
    intro h hv
    rw [List.mem_append, not_or]
    exact ⟨by decide, hv.reason.left⟩
  have ⟨hreason, hrest⟩ := line_append_inj (hcr hv) (hcr hv') hrest
  have ⟨hfields, hb⟩ := fields_append_inj hv.fields hv'.fields hrest
  exact ⟨Head.ext hstatus (List.append_cancel_left hreason) hfields, hb⟩

-- A head announces only one length.
theorem Head.Announces.unique {h : Head} {n m : Nat} (hn : h.Announces n) (hm : h.Announces m) : n = m := by
  have ⟨d, hd, _, _, hdn⟩ := hn.length
  have ⟨d', hd', _, _, hdm⟩ := hm.length
  have hdd : d = d' := by simpa using hd.symm.trans hd'
  rw [← hdn, ← hdm, hdd]

-- A reply with a body that has as many bytes as its head announces.
structure Complete (text : Bytes) (head : Head) (body : Bytes) : Prop where
  valid : head.Valid
  framed : head.Announces body.length
  text  : text = head.text ++ body

-- There is only one way to read a complete reply.
theorem Complete.unique {text : Bytes} {h h' : Head} {b b' : Bytes} (hc : Complete text h b)
    (hc' : Complete text h' b') : h = h' ∧ b = b' :=
  Head.text_append_inj hc.valid hc'.valid (hc.text.symm.trans hc'.text)

end Http
