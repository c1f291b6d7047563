import ZoneKeeper.Proofs.Record.Canonical
import ZoneKeeper.Proofs.Record.ServiceWire
import ZoneKeeper.Proofs.RecordType.Bitmap

namespace ZoneKeeper

namespace Field

def divided : Field → Field
  | .strings pieces => .strings (pieces.flatMap chunks)
  | f => f

def form : Field → FieldKind
  | .number8 _ => .number8
  | .number16 _ => .number16
  | .number32 _ => .number32
  | .name _ => .name
  | .ipv4 _ => .ipv4
  | .ipv6 _ => .ipv6
  | .strings _ => .strings
  | .tag _ => .tag
  | .text _ => .text
  | .string _ => .string
  | .hex _ => .hex
  | .base64 _ => .base64
  | .types _ => .types
  | .prefixes _ => .prefixes
  | .hardware t => .hardware t.length
  | .locator _ => .locator
  | .location _ => .location
  | .parameters _ => .service

def IsSound : Field → Prop
  | .name n => n.IsValid
  | .strings pieces => ∀ piece ∈ pieces, piece.length ≤ 255
  | .tag t => t.length ≤ 255
  | .string t => t.length ≤ 255
  | .types codes => codes.Pairwise (· < ·)
  | .prefixes items => ∀ item ∈ items, item.IsValid
  | .locator t => t.length = 8
  | .parameters p => p.IsSettled
  | _ => True

@[simp] theorem form_divided (f : Field) : f.divided.form = f.form := by
  cases f <;> rfl

theorem length_of_mem_divided {pieces : List Octets} :
    ∀ piece ∈ pieces.flatMap chunks, piece.length ≤ 255 := by
  intro piece hpiece
  obtain ⟨t, -, ht⟩ := List.mem_flatMap.1 hpiece
  exact length_chunks ht

theorem flatMap_chunks {pieces : List Octets} (h : ∀ piece ∈ pieces, piece.length ≤ 255) :
    pieces.flatMap chunks = pieces := by
  rw [List.flatMap_congr fun piece hpiece => chunks_of_le (h piece hpiece)]
  exact List.flatMap_singleton' pieces

theorem wire_strings (pieces : List Octets) :
    (strings pieces).wire = (pieces.flatMap chunks).flatMap counted :=
  List.flatMap_assoc.symm

@[simp] theorem wire_divided (f : Field) : f.divided.wire = f.wire := by
  cases f with
  | strings pieces =>
      rw [divided, wire_strings, wire_strings, flatMap_chunks length_of_mem_divided]
  | _ => rfl

end Field

namespace FieldKind

def forms : FieldKind → List FieldKind
  | .nameAsGiven => [.name]
  | .host _ _ => [.name]
  | .ipv4Strict => [.ipv4]
  | .stringPair => [.string, .string]
  | .target => [.text]
  | .digest => [.number8, .hex]
  | .certificate => [.number16]
  | .service => [.number16, .name, .service]
  | kind => [kind]

def endsItself : FieldKind → Bool
  | .strings => false
  | .text => false
  | .hex => false
  | .base64 => false
  | .types => false
  | .prefixes => false
  | .service => false
  | _ => true

structure Yields (kind : FieldKind) (fields : List Field) : Prop where
  forms : fields.map Field.form = kind.forms
  sound : ∀ f ∈ fields, f.divided.IsSound

theorem Gives.yields {kind : FieldKind} {fields : List Field} (h : kind.Gives fields) :
    kind.Yields fields := by
  have single {f : Field} (hform : kind.forms = [f.form]) (hsound : f.divided.IsSound) :
      kind.Yields [f] :=
    ⟨hform.symm, List.forall_mem_singleton.2 hsound⟩
  cases h with
  | number8 | number16 | number32 | ipv4 | ipv4Strict | ipv6 | text | target | certificate
  | hex | base64 | hardware | location => exact single rfl trivial
  | name hvalid => exact single rfl hvalid.lower
  | nameAsGiven hvalid => exact single rfl hvalid
  | host hhost => exact single rfl hhost.isValid
  | strings => exact single rfl Field.length_of_mem_divided
  | tag htag => exact single rfl htag.length
  | string hlength => exact single rfl hlength
  | stringPair hlengths => exact ⟨rfl, by simpa [Field.divided, Field.IsSound] using hlengths⟩
  | digest => exact ⟨rfl, by simp [Field.divided, Field.IsSound]⟩
  | types hascends => exact single rfl hascends
  | prefixes _ hvalid => exact single rfl hvalid
  | locator hlength => exact single rfl hlength
  | service htarget hp =>
      exact ⟨rfl, by simpa [Field.divided, Field.IsSound] using ⟨htarget, hp⟩⟩

end FieldKind

namespace Field

theorem selfDelimiting_wire {form : FieldKind} (hends : form.endsItself = true) :
    SelfDelimiting (fun f => f.form = form ∧ f.IsSound) wire := by
  rintro f g ⟨rfl, hf⟩ ⟨hform, hg⟩ rest rest' h
  cases f <;> cases g <;> try (cases hform; done)
  case number8.number8 => exact (selfDelimiting_octet trivial trivial h).imp_left (congrArg _)
  case number16.number16 => exact (selfDelimiting_be16 trivial trivial h).imp_left (congrArg _)
  case number32.number32 => exact (selfDelimiting_be32 trivial trivial h).imp_left (congrArg _)
  case name.name => exact (DomainName.selfDelimiting_wire hf hg h).imp_left (congrArg _)
  case ipv4.ipv4 => exact (selfDelimiting_ipv4 trivial trivial h).imp_left (congrArg _)
  case ipv6.ipv6 => exact (selfDelimiting_ipv6 trivial trivial h).imp_left (congrArg _)
  case tag.tag => exact (selfDelimiting_counted hf hg h).imp_left (congrArg _)
  case string.string => exact (selfDelimiting_counted hf hg h).imp_left (congrArg _)
  case hardware.hardware =>
    exact (List.append_inj h (FieldKind.hardware.inj hform).symm).imp_left (congrArg _)
  case locator.locator =>
    exact (List.append_inj h (Eq.trans hf (Eq.symm hg))).imp_left (congrArg _)
  case location.location =>
    exact (Location.selfDelimiting_wire trivial trivial h).imp_left (congrArg _)
  all_goals exact absurd hends Bool.false_ne_true

theorem wire_inj {f g : Field} (hform : f.form = g.form) (hf : f.IsSound) (hg : g.IsSound)
    (hlength : f.wire.length < 65536) (h : f.wire = g.wire) : f = g := by
  cases hends : f.form.endsItself with
  | true => exact (selfDelimiting_wire hends).inj ⟨rfl, hf⟩ ⟨hform.symm, hg⟩ h
  | false =>
      cases f <;> cases g <;> try (cases hform; done)
      case strings.strings pieces pieces' =>
        rw [wire_strings, wire_strings, flatMap_chunks hf, flatMap_chunks hg] at h
        exact congrArg _ (selfDelimiting_counted.flatMap_inj (fun t _ => counted_ne_nil t) hf hg h)
      case text.text => exact congrArg _ h
      case hex.hex => exact congrArg _ h
      case base64.base64 => exact congrArg _ h
      case types.types => exact congrArg _ (Bitmap.wire_inj hf hg h)
      case prefixes.prefixes =>
        exact congrArg _ (AddressPrefix.selfDelimiting_wire.flatMap_inj
          (fun item _ => item.wire_ne_nil) hf hg h)
      case parameters.parameters p q =>
        have hlength' : q.wire.length < 65536 := (congrArg List.length h).symm.trans_lt hlength
        exact congrArg _ (ServiceParameters.wire_inj
          (ServiceParameters.isCountable_of_isSettled hf hlength)
          (ServiceParameters.isCountable_of_isSettled hg hlength') h)
      all_goals cases hends

end Field

end ZoneKeeper
