import RestModule.Text.Lines

/-!
# Built-in templates

The templates that are used where no other one overrides them, by the file names that override them.
-/

namespace RestModule.Template

/-- File name of the template `applicationText`. -/
def applicationFile : String := "Application.java.tpl"

/-- File name of the template `basicAuthenticationText`. -/
def basicAuthenticationFile : String := "basic.authentication.tpl"

/-- File name of the template `bundleText`. -/
def bundleFile : String := "bnd.bnd.tpl"

/-- File name of the template `buildText`. -/
def buildFile : String := "build.gradle.tpl"

/-- File name of the template `modelText`. -/
def modelFile : String := "Model.java.tpl"

/-- File name of the template `implementationText`. -/
def implementationFile : String := "ResourceImpl.java.tpl"

/-- File name of the template `interfaceText`. -/
def interfaceFile : String := "Resource.java.tpl"

/-- The application class. -/
def applicationText : String :=
  Text.ofLines
    ["package $\x7bPACKAGE\x7d;",
      "",
      "import java.util.Collections;",
      "import java.util.Set;",
      "",
      "import javax.annotation.Generated;",
      "",
      "import javax.ws.rs.core.Application;",
      "",
      "import org.osgi.service.component.annotations.Component;",
      "",
      "/**",
      " * Serves: $\x7bRESOURCES\x7d",
      " *",
      " * @author $\x7bAUTHOR\x7d",
      " */",
      "@Component(",
      "\tproperty = \x7b",
      "\t\t\"osgi.jaxrs.application.base=$\x7bAPPLICATION_BASE\x7d\",$\x7bBASIC_AUTHENTICATION\x7d",
      "\t\t\"osgi.jaxrs.extension.select=(osgi.jaxrs.name=Liferay.Vulcan)\",",
      "\t\t\"osgi.jaxrs.name=$\x7bAPPLICATION_NAME\x7d\"",
      "\t\x7d,",
      "\tservice = Application.class",
      ")",
      "@Generated(value = \"restmodgen\")",
      "public class $\x7bAPPLICATION_CLASS\x7d extends Application \x7b",
      "",
      "\t@Override",
      "\tpublic Set<Object> getSingletons() \x7b",
      "\t\treturn Collections.emptySet();",
      "\t\x7d",
      "",
      "\x7d"]

/-- The property of the application class that verifies basic authentication. -/
def basicAuthenticationText : String :=
  "\n" ++ "\t\t\"auth.verifier.BasicAuthHeaderAuthVerifier.urls.includes=*\","

/-- The bundle descriptor. -/
def bundleText : String :=
  Text.ofLines
    ["Bundle-Name: $\x7bBUNDLE_NAME\x7d",
      "Bundle-SymbolicName: $\x7bBUNDLE_SYMBOLIC_NAME\x7d",
      "Bundle-Version: $\x7bBUNDLE_VERSION\x7d",
      "Liferay-Require-SchemaVersion: 1.0.0"]

/-- The build descriptor. -/
def buildText : String :=
  Text.ofLines
    ["dependencies \x7b",
      "\tcompileOnly group: \"com.liferay\", name: \"com.liferay.commerce.openapi.core\", version: \"1.0.0\"",
      "\tcompileOnly group: \"javax.ws.rs\", name: \"javax.ws.rs-api\", version: \"2.1\"",
      "\tcompileOnly group: \"javax.xml.bind\", name: \"jaxb-api\", version: \"2.3.0\"",
      "\tcompileOnly group: \"org.osgi\", name: \"org.osgi.service.component.annotations\", version: \"1.3.0\"",
      "\tcompileOnly group: \"org.osgi\", name: \"org.osgi.service.jaxrs\", version: \"1.0.0\"",
      "\tcompileOnly project(\":apps:portal:portal-kernel\")",
      "\x7d"]

/-- The class of a model. -/
def modelText : String :=
  Text.ofLines
    ["package $\x7bPACKAGE\x7d;",
      "",
      "$\x7bIMPORTS\x7dimport javax.annotation.Generated;",
      "",
      "import javax.xml.bind.annotation.XmlRootElement;",
      "",
      "/**",
      " * @author $\x7bAUTHOR\x7d",
      " */",
      "@Generated(value = \"restmodgen\")",
      "@XmlRootElement",
      "public class $\x7bMODEL_CLASS\x7d \x7b",
      "",
      "$\x7bMETHODS\x7d",
      "",
      "$\x7bVARIABLES\x7d",
      "",
      "\x7d"]

/-- The implementation of a resource. -/
def implementationText : String :=
  Text.ofLines
    ["package $\x7bPACKAGE\x7d;",
      "",
      "$\x7bIMPORT_STATEMENTS\x7d",
      "",
      "$\x7bMODEL_IMPORT_STATEMENTS_JAVAX\x7dimport org.osgi.service.component.annotations.Component;",
      "",
      "/**",
      " * @author $\x7bAUTHOR\x7d",
      " */",
      "@Component(",
      "\tproperty = \x7b",
      "\t\t\"api.version=$\x7bAPI_VERSION\x7d\",",
      "\t\t\"osgi.jaxrs.application.select=(osgi.jaxrs.name=$\x7bAPPLICATION_NAME\x7d)\",",
      "\t\t\"osgi.jaxrs.resource=true\"",
      "\t\x7d,",
      "\tservice = $\x7bMODEL_RESOURCE_INTERFACE_CLASS\x7d.class",
      ")",
      "public class $\x7bMODEL_RESOURCE_IMPLEMENTATION_CLASS\x7d",
      "\timplements $\x7bMODEL_RESOURCE_INTERFACE_CLASS\x7d \x7b",
      "",
      "$\x7bMETHODS\x7d",
      "",
      "\x7d"]

/-- The interface of a resource. -/
def interfaceText : String :=
  Text.ofLines
    ["package $\x7bPACKAGE\x7d;",
      "",
      "$\x7bMODEL_IMPORT_STATEMENTS\x7d$\x7bCORE_IMPORT_STATEMENTS\x7d",
      "import javax.annotation.Generated;",
      "",
      "$\x7bMODEL_IMPORT_STATEMENTS_JAVAX\x7d",
      "",
      "/**",
      " * @author $\x7bAUTHOR\x7d",
      " */",
      "@Generated(value = \"restmodgen\")",
      "@Path(\"/v$\x7bAPI_VERSION\x7d/$\x7bPATH\x7d\")",
      "public interface $\x7bMODEL_RESOURCE_INTERFACE_CLASS\x7d \x7b",
      "",
      "$\x7bMETHODS\x7d",
      "",
      "\x7d"]

/-- The built-in template of a file name. -/
def builtin? (name : String) : Option String :=
  [(applicationFile, applicationText), (basicAuthenticationFile, basicAuthenticationText),
    (bundleFile, bundleText), (buildFile, buildText), (modelFile, modelText),
    (implementationFile, implementationText), (interfaceFile, interfaceText)].lookup name

end RestModule.Template
