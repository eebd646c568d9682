import Mime.Entity.Consume
import Mime.Entity.Output

/-! # Closing sources on a disk that works

Where the disk removes every file, closing a source cannot fail.  Then an operation that reads or
writes a source to its end answers as the reading or the writing does. -/

namespace Mime

@[simp] theorem Spills.close_eq (s : Spills) (source : ByteSource) :
    s.close source = (.ok (), s.release source) := by
  refine Prod.ext ?_ rfl
  unfold close
  split <;> rfl

@[simp] theorem Host.close_eq (h : Host) (source : ByteSource) :
    h.close source = (.ok (), h.release source) := by
  refine Prod.ext ?_ rfl
  unfold close
  rw [Spills.close_eq]

namespace Entity

variable (e : Entity) (host : Host)

theorem closeByteSource_of_byteSource {source : ByteSource} (h : e.body = .byteSource source) :
    e.closeByteSource host = ⟨.ok (), e.withBody .empty, host.release source⟩ := by
  rw [closeByteSource, h]
  dsimp only
  rw [Host.close_eq]
  rfl

theorem readAllBytes_of_byteSource {source : ByteSource} (h : e.body = .byteSource source)
    (missing : MissingContent) : e.readAllBytes host missing =
      ⟨source.readAll.mapError .io, e.withBody .empty, host.release source⟩ := by
  rw [readAllBytes, h]
  dsimp only
  rw [Host.close_eq]
  cases source.readAll <;> rfl

theorem writePartBody_byteSource (nested : Option String) (inForm : Bool) (source : ByteSource)
    (o : Output) : writePartBody nested inForm (.byteSource source) o =
      let (result, o) := o.copy source.arrivals
      (result, .empty, { o with host := o.host.release source }) := by
  rw [writePartBody]
  dsimp only
  rw [Host.close_eq]
  cases (o.copy source.arrivals).1 <;> rfl

theorem writeBody_of_byteSource {source : ByteSource} (h : e.body = .byteSource source)
    (o : Output) : e.writeBody o =
      let (result, sink) := o.sink.copy source.arrivals
      (result.mapError fun err => writingFailure err.cause, e.withBody .empty,
        ⟨sink, o.host.release source⟩) := by
  rw [writeBody, h]
  dsimp only
  rw [Host.close_eq]
  cases (o.sink.copy source.arrivals).1 <;> rfl

end Entity
end Mime
