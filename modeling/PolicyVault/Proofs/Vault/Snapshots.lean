import PolicyVault.Proofs.Text.Bytes
import PolicyVault.Proofs.Text.Numerals
import PolicyVault.Vault.Snapshot

/-!
# Snapshots that are read back

A snapshot is read back from its written form if it has a segment and no text in it holds a mark.
Nothing is read from a proper prefix: the written form ends with two record marks, and these do not
follow one another before, since every row starts with the digit of a flag.

Main statements: `decode_encode`, `decode_prefix`, `portable_of_decode`.
-/

namespace PolicyVault.Snapshot

variable {v : Snapshot} {s : SegmentEntry} {bytes : List UInt8}

/-- The text can stand in a field. -/
def Unmarked (text : List Char) : Prop := fieldMark ∉ text ∧ recordMark ∉ text

/-- The written form tells all of the snapshot. -/
structure Portable (v : Snapshot) : Prop where
  segments : v.segments ≠ []
  policies : ∀ p ∈ v.policies, Unmarked p.text.toList
  monitored : ∀ s ∈ v.segments, ∀ text, s.policy = some text → text ≠ "" ∧ Unmarked text.toList

/-- Memory can be reserved for the policies, as it must have been for a snapshot in memory. -/
def Reservable (v : Snapshot) : Prop := v.policies.length * entrySize ≤ maxReservation

/-! ## Fields -/

def digits (n : Nat) : List Char := (toString n).toList

def flag (set : Bool) : List Char := digits (if set then 1 else 0)

def terminated (parts : List (List Char)) : List Char := parts.flatMap (· ++ [fieldMark])

def PolicyEntry.parts (p : PolicyEntry) : List (List Char) :=
  [p.text.toList, digits p.bindings.toNat]

def SegmentEntry.parts (s : SegmentEntry) : List (List Char) :=
  [flag s.used, digits s.offset.toNat, digits s.last.toNat, digits s.size.toNat,
    (s.policy.getD "").toList]

def SegmentEntry.ending (s : SegmentEntry) : List Char :=
  (s.state.elim "" fun state => toString state.toNat).toList

/-- The record of a segment without its mark. -/
def SegmentEntry.row (s : SegmentEntry) : List Char := terminated s.parts ++ s.ending

def head (v : Snapshot) : List (List Char) :=
  [digits v.pid.toNat, digits v.arenaSize.toNat, digits v.usedBytes.toNat, flag v.locked,
    digits v.policies.length]

def opening (v : Snapshot) : List (List Char) := v.head ++ v.policies.flatMap PolicyEntry.parts

def rows (v : Snapshot) (first : SegmentEntry) (rest : List SegmentEntry) : List (List Char) :=
  (terminated v.opening ++ first.row) :: rest.map SegmentEntry.row

theorem terminated_append (parts others : List (List Char)) :
    terminated (parts ++ others) = terminated parts ++ terminated others :=
  List.flatMap_append

theorem record_eq : SegmentEntry.record = fun s => s.row ++ [recordMark] := by
  funext s
  simp [SegmentEntry.record, SegmentEntry.row, SegmentEntry.parts, SegmentEntry.ending, terminated,
    flagField, flag, numberField, digits, textField]

theorem fields_eq : PolicyEntry.fields = fun p => terminated p.parts := by
  funext p
  simp [PolicyEntry.fields, PolicyEntry.parts, terminated, numberField, digits, textField]

theorem toText_eq {first : SegmentEntry} {rest : List SegmentEntry}
    (segments : v.segments = first :: rest) :
    v.toText = (v.rows first rest).flatMap (· ++ [recordMark]) ++ [recordMark] := by
  have policies : v.policies.flatMap PolicyEntry.fields =
      terminated (v.policies.flatMap PolicyEntry.parts) := by
    rw [fields_eq, terminated, List.flatMap_assoc]
    rfl
  have header : numberField v.pid.toNat ++ numberField v.arenaSize.toNat
      ++ numberField v.usedBytes.toNat ++ flagField v.locked ++ numberField v.policies.length =
        terminated v.head := by
    simp [terminated, head, flagField, flag, numberField, digits]
  rw [toText, header, policies, record_eq, segments, rows, opening, terminated_append]
  simp [List.flatMap_map]

/-! ## Marks -/

theorem unmarked_of_digits {text : List Char} (isDigit : ∀ c ∈ text, c.isDigit = true) :
    Unmarked text :=
  ⟨fun field => absurd (isDigit _ field) (by decide),
    fun record => absurd (isDigit _ record) (by decide)⟩

theorem unmarked_digits (n : Nat) : Unmarked (digits n) :=
  unmarked_of_digits (Text.isDigit_toString n)

theorem unmarked_ending (s : SegmentEntry) : Unmarked s.ending := by
  unfold SegmentEntry.ending
  cases s.state with
  | none => exact unmarked_of_digits (by simp)
  | some state => exact unmarked_digits _

theorem unmarked_head (v : Snapshot) : ∀ part ∈ v.head, Unmarked part := by
  simp only [head, flag, List.forall_mem_cons]
  exact ⟨unmarked_digits _, unmarked_digits _, unmarked_digits _, unmarked_digits _,
    unmarked_digits _, by simp⟩

theorem Portable.opening (portable : v.Portable) : ∀ part ∈ v.opening, Unmarked part := by
  refine List.forall_mem_append.mpr ⟨unmarked_head v, ?_⟩
  intro part member
  obtain ⟨p, inside, here⟩ := List.mem_flatMap.mp member
  have entry : ∀ part ∈ p.parts, Unmarked part := by
    simp only [PolicyEntry.parts, List.forall_mem_cons]
    exact ⟨portable.policies p inside, unmarked_digits _, by simp⟩
  exact entry part here

theorem Portable.parts (portable : v.Portable) (member : s ∈ v.segments) :
    ∀ part ∈ s.parts, Unmarked part := by
  have policy : Unmarked (s.policy.getD "").toList := by
    cases told : s.policy with
    | none => exact unmarked_of_digits (by simp)
    | some text => exact (portable.monitored s member text told).2
  simp only [SegmentEntry.parts, flag, List.forall_mem_cons]
  exact ⟨unmarked_digits _, unmarked_digits _, unmarked_digits _, unmarked_digits _, policy,
    by simp⟩

theorem recordMark_not_mem {parts : List (List Char)} {ending : List Char}
    (unmarked : ∀ part ∈ parts, Unmarked part) (last : Unmarked ending) :
    recordMark ∉ terminated parts ++ ending := by
  intro member
  rcases List.mem_append.mp member with early | late
  · obtain ⟨part, inside, here⟩ := List.mem_flatMap.mp early
    rcases List.mem_append.mp here with text | mark
    · exact (unmarked part inside).2 text
    · exact absurd (List.mem_singleton.mp mark) (by decide)
  · exact last.2 late

theorem row_ne_nil (s : SegmentEntry) : s.row ≠ [] := by
  simp [SegmentEntry.row, SegmentEntry.parts, terminated]

/-- No row is empty, and none holds a record mark. -/
theorem Portable.rows (portable : v.Portable) {first : SegmentEntry} {rest : List SegmentEntry}
    (segments : v.segments = first :: rest) :
    ∀ row ∈ v.rows first rest, row ≠ [] ∧ recordMark ∉ row := by
  refine List.forall_mem_cons.mpr ⟨⟨by simp [row_ne_nil], ?_⟩, ?_⟩
  · have parts := portable.parts (segments ▸ List.mem_cons_self)
    rw [SegmentEntry.row, ← List.append_assoc, ← terminated_append]
    exact recordMark_not_mem (List.forall_mem_append.mpr ⟨portable.opening, parts⟩)
      (unmarked_ending first)
  · intro row member
    obtain ⟨s, inside, rfl⟩ := List.mem_map.mp member
    have parts := portable.parts (segments ▸ List.mem_cons_of_mem first inside)
    exact ⟨row_ne_nil s, recordMark_not_mem parts (unmarked_ending s)⟩

/-! ## Prefixes -/

theorem encode_eq {first : SegmentEntry} {rest : List SegmentEntry}
    (segments : v.segments = first :: rest) :
    v.encode = ((v.rows first rest).map (Text.bytesOfText <| String.ofList ·)).flatMap (· ++ [0x1e])
      ++ [0x1e] := by
  have row : ∀ row : List Char,
      (row ++ [recordMark]).flatMap String.utf8EncodeChar =
        Text.bytesOfText (String.ofList row) ++ [0x1e] := by
    intro row
    rw [List.flatMap_append, Text.bytesOfText_ofList]
    rfl
  rw [encode, toText_eq segments, Text.bytesOfText_ofList, List.flatMap_append, List.flatMap_assoc,
    List.flatMap_map]
  simp only [row]
  rfl

theorem Portable.double_mark (portable : v.Portable) {front back : List UInt8}
    (double : v.encode = front ++ 0x1e :: 0x1e :: back) : back = [] := by
  obtain ⟨first, rest, segments⟩ := List.exists_cons_of_ne_nil portable.segments
  rw [encode_eq segments] at double
  refine Text.double_mark_last ?_ double
  intro part member
  obtain ⟨row, inside, rfl⟩ := List.mem_map.mp member
  obtain ⟨nonempty, unmarked⟩ := portable.rows segments row inside
  exact ⟨Text.bytesOfText_ne_nil nonempty,
    fun mark => unmarked (Text.mem_bytesOfText (by decide) mark)⟩

/-- Nothing is read from a proper prefix of a written snapshot. -/
theorem decode_prefix (portable : v.Portable) (part : bytes <+: v.encode)
    (proper : bytes ≠ v.encode) : decode bytes = .error .malformed := by
  have unclosed : ¬ [0x1e, 0x1e].isSuffixOf bytes = true := by
    intro closed
    obtain ⟨front, rfl⟩ := List.isSuffixOf_iff_suffix.mp closed
    obtain ⟨back, whole⟩ := part
    have double : v.encode = front ++ 0x1e :: 0x1e :: back := by
      rw [← whole, List.append_assoc]
      rfl
    rw [portable.double_mark double, List.append_nil] at whole
    exact proper whole
  rw [decode, records?, if_neg unclosed]

/-! ## Reading back -/

theorem records?_marked {text row : List Char} {rows : List (List Char)}
    (cut : Text.cutAt recordMark text = row :: rows) :
    records? (Text.bytesOfText (String.ofList text) ++ [0x1e, 0x1e]) =
      some (Text.cutAt fieldMark row, rows.map (Text.cutAt fieldMark)) := by
  have closed : [0x1e, 0x1e].isSuffixOf
      (Text.bytesOfText (String.ofList text) ++ [0x1e, 0x1e]) = true :=
    List.isSuffixOf_iff_suffix.mpr (List.suffix_append ..)
  rw [records?, if_pos closed, List.length_append, List.length_cons, List.length_singleton,
    Nat.add_sub_cancel, List.take_left' rfl, Text.textOfBytes?_bytesOfText]
  simp [cut]

theorem cutAt_fields {parts : List (List Char)} {ending : List Char}
    (unmarked : ∀ part ∈ parts, Unmarked part) (last : Unmarked ending) :
    Text.cutAt fieldMark (terminated parts ++ ending) = parts ++ [ending] :=
  Text.cutAt_terminated (fun part member => (unmarked part member).1) last.1

theorem Portable.records? (portable : v.Portable) {first : SegmentEntry}
    {rest : List SegmentEntry} (segments : v.segments = first :: rest) :
    records? v.encode = some
      (v.opening ++ (first.parts ++ [first.ending]), rest.map fun s => s.parts ++ [s.ending]) := by
  have unmarked := portable.rows segments
  have nonempty : v.rows first rest ≠ [] := List.cons_ne_nil _ _
  obtain ⟨text, whole, cut⟩ :=
    Text.cutAt_parts nonempty fun row member => (unmarked row member).2
  have written : v.encode = Text.bytesOfText (String.ofList text) ++ [0x1e, 0x1e] := by
    rw [encode, toText_eq segments, whole, Text.bytesOfText_ofList, Text.bytesOfText_ofList,
      List.append_assoc, List.flatMap_append]
    rfl
  have head : Text.cutAt fieldMark (terminated v.opening ++ first.row) =
      v.opening ++ (first.parts ++ [first.ending]) := by
    have parts := portable.parts (segments ▸ List.mem_cons_self)
    rw [SegmentEntry.row, ← List.append_assoc, ← terminated_append, ← List.append_assoc]
    exact cutAt_fields (List.forall_mem_append.mpr ⟨portable.opening, parts⟩)
      (unmarked_ending first)
  rw [written, records?_marked cut, head, List.map_map]
  refine congrArg some (Prod.ext rfl (List.map_congr_left fun s inside => ?_))
  have parts := portable.parts (segments ▸ List.mem_cons_of_mem first inside)
  exact cutAt_fields parts (unmarked_ending s)

@[simp]
theorem word32?_digits (w : UInt32) : word32? (digits w.toNat) = some w := by
  have small : w.toNat < Text.wordLimit32 := w.toNat_lt
  rw [word32?, digits, Text.decimal?_toString small, Option.map_some, UInt32.ofNat_toNat]

@[simp]
theorem word64?_digits (w : UInt64) : word64? (digits w.toNat) = some w := by
  have small : w.toNat < Text.wordLimit64 := w.toNat_lt
  rw [word64?, digits, Text.decimal?_toString small, Option.map_some, UInt64.ofNat_toNat]

@[simp]
theorem flag_set (set : Bool) : (flag set == ['1']) = set := by
  cases set <;> rfl

theorem header?_opening (small : v.policies.length < Text.wordLimit64)
    (more : List (List Char)) :
    header? (v.opening ++ more) =
      some (⟨v.pid, v.arenaSize, v.usedBytes, v.locked, v.policies.length⟩,
        v.policies.flatMap PolicyEntry.parts ++ more) := by
  have count : Text.decimal? Text.wordLimit64 (digits v.policies.length) = some v.policies.length :=
    Text.decimal?_toString small
  simp [header?, opening, head, count]

theorem policies?_parts (policies : List PolicyEntry) (more : List (List Char)) :
    policies? policies.length (policies.flatMap PolicyEntry.parts ++ more) =
      some (policies, more) := by
  induction policies with
  | nil => rfl
  | cons p policies ih => simp [policies?, PolicyEntry.parts, ih]

theorem segment?_parts (named : s.policy ≠ some "") :
    segment? (s.parts ++ [s.ending]) = some s := by
  have policy : (if s.policy.getD "" = "" then none else some (s.policy.getD "")) = s.policy := by
    cases told : s.policy with
    | none => rfl
    | some text => exact if_neg fun empty => named (told.trans (congrArg some empty))
  cases told : s.state with
  | none =>
    have ending : s.ending = [] := by
      rw [SegmentEntry.ending, told]
      rfl
    simp [segment?, SegmentEntry.parts, policy, ending, ← told]
  | some state =>
    have ending : s.ending = digits state.toNat := by
      rw [SegmentEntry.ending, told]
      rfl
    have nonempty : digits state.toNat ≠ [] := Text.toString_ne_nil _
    simp [segment?, SegmentEntry.parts, policy, ending, nonempty]
    rw [← told]

theorem mapM_segment? {segments : List SegmentEntry}
    (named : ∀ s ∈ segments, s.policy ≠ some "") :
    (segments.map fun s => s.parts ++ [s.ending]).mapM segment? = some segments := by
  induction segments with
  | nil => rfl
  | cons s segments ih =>
    obtain ⟨here, others⟩ := List.forall_mem_cons.mp named
    simp [segment?_parts here, ih others]

theorem decode_encode (portable : v.Portable) (reservable : v.Reservable) :
    decode v.encode = .ok v := by
  obtain ⟨first, rest, segments⟩ := List.exists_cons_of_ne_nil portable.segments
  have small : v.policies.length < Text.wordLimit64 := by
    unfold Reservable entrySize maxReservation at reservable
    unfold Text.wordLimit64
    omega
  have named : ∀ s ∈ v.segments, s.policy ≠ some "" :=
    fun s member told => (portable.monitored s member "" told).1 rfl
  rw [segments] at named
  obtain ⟨here, others⟩ := List.forall_mem_cons.mp named
  simp only [decode, portable.records? segments, header?_opening small,
    if_neg (Nat.not_lt.mpr reservable), body?, policies?_parts]
  simp [segment?_parts here, mapM_segment? others, ← segments]

/-! ## Forms that are cut off -/

theorem length_policies_le (v : Snapshot) : v.policies.length ≤ v.encode.length := by
  have entries : v.policies.length ≤ (v.policies.flatMap PolicyEntry.fields).length :=
    Text.length_le_length_flatMap (by simp [PolicyEntry.fields, textField]) v.policies
  have text : (v.policies.flatMap PolicyEntry.fields).length ≤ v.toText.length := by
    simp only [toText, List.length_append]
    omega
  exact Nat.le_trans entries (Nat.le_trans text (Text.length_le_bytesOfText _))

/-- What is left of a written snapshot is all of it, or nothing can be read from it. -/
theorem decode_take (portable : v.Portable) {limit : Nat}
    (small : limit * entrySize ≤ maxReservation) :
    decode (v.encode.take limit) =
      if v.encode.length ≤ limit then .ok v else .error .malformed := by
  split
  · rename_i whole
    have reservable : v.Reservable :=
      Nat.le_trans (Nat.mul_le_mul_right _ (Nat.le_trans v.length_policies_le whole)) small
    rw [List.take_of_length_le whole, decode_encode portable reservable]
  · rename_i long
    refine decode_prefix portable (List.take_prefix ..) fun whole => long ?_
    rw [← whole]
    exact List.length_take_le ..

/-! ## What can be read -/

theorem unmarked_of_records? {fields : List (List Char)} {records : List (List (List Char))}
    (read : records? bytes = some (fields, records)) :
    (∀ field ∈ fields, Unmarked field) ∧
      ∀ record ∈ records, ∀ field ∈ record, Unmarked field := by
  have cut : ∀ {text row field : List Char}, row ∈ Text.cutAt recordMark text →
      field ∈ Text.cutAt fieldMark row → Unmarked field := by
    intro text row field inText inRow
    obtain ⟨unmarked, within⟩ := Text.mem_cutAt inRow
    exact ⟨unmarked, fun mark => (Text.mem_cutAt inText).1 (within _ mark)⟩
  unfold records? at read
  split at read
  · obtain ⟨text, -, read⟩ := Option.bind_eq_some_iff.mp read
    split at read
    · cases read
    · rename_i row rows pieces
      obtain ⟨rfl, rfl⟩ := Prod.mk.inj (Option.some.inj read)
      refine ⟨fun field member => cut (pieces ▸ List.mem_cons_self) member, ?_⟩
      intro record member field inside
      obtain ⟨other, later, rfl⟩ := List.mem_map.mp member
      exact cut (pieces ▸ List.mem_cons_of_mem row later) inside
  · cases read

theorem suffix_of_header? {header : Header} {fields rest : List (List Char)}
    (read : header? fields = some (header, rest)) : rest <:+ fields := by
  unfold header? at read
  split at read
  · rename_i pid arenaSize usedBytes locked policyCount others
    obtain ⟨_, -, read⟩ := Option.bind_eq_some_iff.mp read
    obtain ⟨_, -, read⟩ := Option.bind_eq_some_iff.mp read
    obtain ⟨_, -, read⟩ := Option.bind_eq_some_iff.mp read
    obtain ⟨_, -, read⟩ := Option.bind_eq_some_iff.mp read
    obtain ⟨-, rfl⟩ := Prod.mk.inj (Option.some.inj read)
    exact List.suffix_append [pid, arenaSize, usedBytes, locked, policyCount] others
  · cases read

theorem mem_of_policies? {count : Nat} {fields rest : List (List Char)}
    {policies : List PolicyEntry} (read : policies? count fields = some (policies, rest)) :
    policies.length = count ∧ (∀ p ∈ policies, p.text.toList ∈ fields) ∧ rest <:+ fields := by
  fun_induction policies? count fields generalizing policies with
  | case1 fields =>
    obtain ⟨rfl, rfl⟩ := Prod.mk.inj (Option.some.inj read)
    exact ⟨rfl, by simp, List.suffix_refl _⟩
  | case2 count text bindings fields ih =>
    obtain ⟨_, -, read⟩ := Option.bind_eq_some_iff.mp read
    obtain ⟨⟨others, left⟩, tail, read⟩ := Option.bind_eq_some_iff.mp read
    obtain ⟨rfl, rfl⟩ := Prod.mk.inj (Option.some.inj read)
    obtain ⟨length, texts, suffix⟩ := ih tail
    refine ⟨congrArg (· + 1) length, List.forall_mem_cons.mpr ⟨by simp, ?_⟩,
      suffix.trans (List.suffix_append [text, bindings] fields)⟩
    intro p member
    exact List.mem_cons_of_mem _ (List.mem_cons_of_mem _ (texts p member))
  | case3 => cases read

theorem mem_of_segment? {fields : List (List Char)} (read : segment? fields = some s) :
    ∀ text, s.policy = some text → text ≠ "" ∧ text.toList ∈ fields := by
  unfold segment? at read
  split at read
  · rename_i policy _
    obtain ⟨_, -, read⟩ := Option.bind_eq_some_iff.mp read
    obtain ⟨_, -, read⟩ := Option.bind_eq_some_iff.mp read
    obtain ⟨_, -, read⟩ := Option.bind_eq_some_iff.mp read
    have named : s.policy = if policy.isEmpty then none else some (String.ofList policy) := by
      dsimp only at read
      split at read
      all_goals
        obtain ⟨_, -, read⟩ := Option.bind_eq_some_iff.mp read
        obtain rfl := Option.some.inj read
        rfl
    intro text told
    rw [named] at told
    obtain ⟨nonempty, same⟩ := Option.ite_none_left_eq_some.mp told
    obtain rfl := Option.some.inj same
    exact ⟨by simpa using nonempty, by simp⟩
  · cases read

theorem mem_of_mapM_segment? {records : List (List (List Char))} {segments : List SegmentEntry}
    (read : records.mapM segment? = some segments) :
    ∀ s ∈ segments, ∃ record ∈ records, segment? record = some s := by
  induction records generalizing segments with
  | nil =>
    obtain rfl : [] = segments := Option.some.inj read
    simp
  | cons record records ih =>
    rw [List.mapM_cons] at read
    obtain ⟨first, here, read⟩ := Option.bind_eq_some_iff.mp read
    obtain ⟨rest, tail, read⟩ := Option.bind_eq_some_iff.mp read
    obtain rfl := Option.some.inj read
    refine List.forall_mem_cons.mpr ⟨⟨record, List.mem_cons_self, here⟩, ?_⟩
    intro s member
    obtain ⟨other, inside, found⟩ := ih tail s member
    exact ⟨other, List.mem_cons_of_mem record inside, found⟩

theorem portable_of_body? {header : Header} {fields : List (List Char)}
    {records : List (List (List Char))} (read : body? header fields records = some v)
    (unmarked : ∀ field ∈ fields, Unmarked field)
    (others : ∀ record ∈ records, ∀ field ∈ record, Unmarked field) :
    v.Portable ∧ v.policies.length = header.policyCount := by
  obtain ⟨⟨policies, rest⟩, inFields, read⟩ := Option.bind_eq_some_iff.mp read
  obtain ⟨first, here, read⟩ := Option.bind_eq_some_iff.mp read
  obtain ⟨segments, later, read⟩ := Option.bind_eq_some_iff.mp read
  obtain rfl := Option.some.inj read
  obtain ⟨length, texts, suffix⟩ := mem_of_policies? inFields
  refine ⟨⟨List.cons_ne_nil _ _, fun p member => unmarked _ (texts p member), ?_⟩, length⟩
  refine List.forall_mem_cons.mpr ⟨?_, ?_⟩
  · intro text told
    obtain ⟨nonempty, inside⟩ := mem_of_segment? here text told
    exact ⟨nonempty, unmarked _ (suffix.subset inside)⟩
  · intro s member text told
    obtain ⟨record, inRecords, found⟩ := mem_of_mapM_segment? later s member
    obtain ⟨nonempty, inside⟩ := mem_of_segment? found text told
    exact ⟨nonempty, others record inRecords _ inside⟩

/-- Every snapshot that is read can be written and read again. -/
theorem portable_of_decode (read : decode bytes = .ok v) : v.Portable ∧ v.Reservable := by
  unfold decode at read
  split at read
  · cases read
  rename_i fields records framed
  obtain ⟨unmarked, others⟩ := unmarked_of_records? framed
  split at read
  · cases read
  rename_i header rest headed
  split at read
  · cases read
  rename_i small
  split at read
  · cases read
  rename_i w found
  obtain rfl := Except.ok.inj read
  obtain ⟨portable, count⟩ := portable_of_body? found
    (fun field member => unmarked field ((suffix_of_header? headed).subset member)) others
  refine ⟨portable, ?_⟩
  rw [Reservable, count]
  exact Nat.not_lt.mp small

end PolicyVault.Snapshot
