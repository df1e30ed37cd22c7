import Mathlib.Data.Finmap

/-! # Bytes, metadata and errors

What all parts of the development share. A Go string is a list of bytes, a `map[string]string` is a
finite map between such lists (`Metadata`). The order in which a `range` loop visits a map is not
determined: `MetaOrder` is a map together with one such order, and `order.toFinmap = m` says that
`order` is an iteration order of `m`. Errors are compared by identity in the source, so `Error` has
one constructor for each error variable, and carries the text of the errors that are built at run
time. -/

namespace Frpc.Basic

/-- Byte slices and strings. -/
abbrev Bytes := List UInt8

/-- The bytes of a string literal. -/
def str (s : String) : Bytes := s.toUTF8.data.toList

/-- `map[string]string`. -/
abbrev Metadata := Finmap fun _ : Bytes => Bytes

/-- A metadata map with the order in which a `range` loop visits it. -/
abbrev MetaOrder := AList fun _ : Bytes => Bytes

/-- The error values of the repository. -/
inductive Error where
  /-- `io.EOF` -/
  | eof
  /-- `io.ErrUnexpectedEOF` -/
  | unexpectedEOF
  /-- `protocol.ErrMetaKVMissing` -/
  | errMetaKVMissing
  /-- `protocol.ErrMessageToLong` -/
  | errMessageToLong
  /-- `client.ErrShutdown` -/
  | errShutdown
  /-- `client.ErrUnsupportedCodec` -/
  | errUnsupportedCodec
  /-- `client.ErrClientNoServer` -/
  | errClientNoServer
  /-- `client.ServiceError` -/
  | serviceError (text : Bytes)
  /-- Any other error: built by `errors.New`, or made by a connection, a codec, a context. -/
  | other (text : Bytes)
deriving DecidableEq

/-- `err.Error()`. -/
def Error.text : Error → Bytes
  | .eof => str "EOF"
  | .unexpectedEOF => str "unexpected EOF"
  | .errMetaKVMissing => str "wrong metadata lines. some keys or values are missing"
  | .errMessageToLong => str "message is too long"
  | .errShutdown => str "connection is shut down"
  | .errUnsupportedCodec => str "unsupported codec"
  | .errClientNoServer => str "can not found any server"
  | .serviceError text => text
  | .other text => text

end Frpc.Basic
