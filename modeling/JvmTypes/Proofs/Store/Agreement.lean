import JvmTypes.Proofs.Shape.Renaming
import JvmTypes.Proofs.Store.Growth
/-!
# Stores that declare the same classes

Two stores may give the same class different places. They agree if they know the same names and
their declarations are equal once every place is read as a name.
-/
namespace JvmTypes.Store

variable {s t u : Store}

def counterpart (s t : Store) (id : ClassId) : ClassId := (t.lookup? (s.name id)).getD id

def Agrees (s t : Store) : Prop :=
  ∀ name, (s.lookup? name).map (fun id => (s.get id).rename (s.counterpart t)) =
    (t.lookup? name).map t.get

theorem counterpart_eq {name : String} {i j : ClassId} (hi : s.lookup? name = some i)
    (hj : t.lookup? name = some j) :
    s.counterpart t i = j := by
  rw [counterpart, name_of_lookup? hi, hj]
  rfl

theorem Agrees.lookup?_isSome (h : s.Agrees t) (name : String) :
    (s.lookup? name).isSome = (t.lookup? name).isSome := by
  have hname := congrArg Option.isSome (h name)
  simpa using hname

theorem Agrees.lookup?_eq (h : s.Agrees t) {name : String} {id : ClassId}
    (hid : s.lookup? name = some id) :
    t.lookup? name = some (s.counterpart t id) := by
  have hsome : (t.lookup? name).isSome = true := by rw [← h.lookup?_isSome, hid]; rfl
  obtain ⟨j, hj⟩ := Option.isSome_iff_exists.mp hsome
  rw [hj, counterpart_eq hid hj]

theorem Agrees.get_counterpart (h : s.Agrees t) {name : String} {id : ClassId}
    (hid : s.lookup? name = some id) :
    t.get (s.counterpart t id) = (s.get id).rename (s.counterpart t) := by
  have hname := h name
  rw [hid, h.lookup?_eq hid] at hname
  exact (Option.some.inj hname).symm

end JvmTypes.Store
